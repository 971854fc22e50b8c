import NullGuard.Proofs.Hazards
import NullGuard.Proofs.Semilattice

/-!
# The transfer only validates, and is monotone

The transfer of a block changes a state only by validating cells (`validatesCells_flow`): each
cell reads afterwards as before, or `validated` where it was hazardous. From this alone, on the
states of a procedure (tracking what the procedure tracks, entries naming distinct cells):

* the transfer is monotone and respects the equality of states (`flow_le`, `flow_equiv`);
* a changed cell went from a hazardous state to `validated` (`ValidatesCells.changed`);
* the transfer keeps the keys of the state, in place (`keys_flow`), since it writes only cells
  that are hazardous, hence held.

The hazard events of a block (`Procedure.blockEvents`) are the pairs of a parameter and a site
that the transfer records: each parameter a dereferenced operation exposes, at the operation's
site, and each entry of a nested function's summary whose parameter is hazardous here, at the
summary's site, the latter whether or not the parameter was recorded before. Their parameters
are the hazards of the block (`map_fst_blockEvents`), and what is found from a state is found
from every state above it (`mem_walkEvents_of_le`).
-/

namespace NullGuard

namespace Procedure

variable {v : Procedure}

/-! ### What validating cells implies -/

/-- A step that validates cells reads alike on states that read alike. -/
theorem ValidatesCells.get_eq {F : AnalysisState → AnalysisState} (hF : v.ValidatesCells F)
    {a b : AnalysisState} (ha : a.tracks = v.tracks) (hb : b.tracks = v.tracks)
    (hab : ∀ l, a.get l = b.get l) (l : Location) : (F a).get l = (F b).get l := by
  obtain ⟨c, hc⟩ := hF
  rw [(hc a ha).2.2 l, (hc b hb).2.2 l, hab l]

/-- A cell that a step validating cells changes was hazardous, and is `validated` after. -/
theorem ValidatesCells.changed {F : AnalysisState → AnalysisState} (hF : v.ValidatesCells F)
    {s : AnalysisState} (hs : s.tracks = v.tracks) {l : Location} (h : (F s).get l ≠ s.get l) :
    (s.get l).isHazardous = true ∧ (F s).get l = .validated := by
  obtain ⟨c, hc⟩ := hF
  rw [(hc s hs).2.2 l] at h ⊢
  unfold Validation.validateIf at h ⊢
  by_cases hv : (c l && (s.get l).isHazardous) = true
  · exact ⟨(Bool.and_eq_true _ _ ▸ hv).2, if_pos hv⟩
  · exact absurd (if_neg hv) h

/-! ### The keys of the state -/

theorem keys_foldl {γ : Type} (F : AnalysisState → γ → AnalysisState) (hF : ∀ s x, (F s x).keys = s.keys) :
    ∀ (xs : List γ) (s : AnalysisState), (xs.foldl F s).keys = s.keys
  | [], _ => rfl
  | x :: xs, s => by rw [List.foldl_cons, keys_foldl F hF xs, hF]

/-- Validating writes only hazardous cells, which the state holds. -/
theorem keys_validate (op : Operation) (s : AnalysisState) : (v.validate op s).keys = s.keys :=
  AnalysisState.keys_setAll_of_contains fun l hl => by
    rw [notValidated, List.mem_mergeSort, List.mem_filter] at hl
    exact AnalysisState.contains_of_isHazardous hl.2

theorem keys_callFlow (callee : MethodId) (args : List Operation) (s : AnalysisState) :
    (v.callFlow callee args s).keys = s.keys := by
  unfold callFlow
  split
  · cases args with
    | nil => rfl
    | cons a _ => exact keys_validate a s
  · rfl

theorem keys_visitFlow (s : AnalysisState) (step : Operation × Bool) : (v.visitFlow s step).keys = s.keys := by
  unfold visitFlow
  generalize step.1.kind = k
  generalize step.1.info.method = callee?
  cases callee? with
  | none => cases k <;> rfl
  | some callee =>
    cases k
    case invocation =>
      dsimp only
      split
      · rfl
      · exact keys_callFlow _ _ s
    case objectCreation => exact keys_callFlow _ _ s
    all_goals rfl

theorem keys_reconcile (s : AnalysisState) : (v.reconcile s).keys = s.keys := by
  rw [reconcile_eq]
  refine keys_foldl _ (fun t p => ?_) _ s
  split
  · exact AnalysisState.keys_setAll_of_contains fun l hl =>
      AnalysisState.contains_of_isHazardous (List.mem_filter.mp hl).2
  · rfl

/-- The transfer of a block keeps the keys of the state, in place. -/
theorem keys_flow (b : BlockId) (s : AnalysisState) : (v.flow b s).keys = s.keys := by
  unfold flow
  dsimp only
  split
  · rw [keys_reconcile, keys_foldl _ keys_visitFlow]
  · exact keys_foldl _ keys_visitFlow _ s

/-! ### Order and equality -/

/-- The transfer of a block is monotone on the states of the procedure. -/
theorem flow_le (b : BlockId) {s s' : AnalysisState} (hs : s.tracks = v.tracks) (hs' : s'.tracks = v.tracks)
    (hd : s.Distinct) (hle : s.le s' = true) : (v.flow b s).le (v.flow b s') = true := by
  have hF := validatesCells_flow (v := v) b
  rw [AnalysisState.le_iff_get (hF.distinct hs hd)]
  exact hF.get_le hs hs' ((AnalysisState.le_iff_get hd s').mp hle)

/-- The transfer of a block takes equal states of the procedure to equal states. -/
theorem flow_equiv (b : BlockId) {s s' : AnalysisState} (hs : s.tracks = v.tracks) (hs' : s'.tracks = v.tracks)
    (hd : s.Distinct) (hd' : s'.Distinct) (heq : s.equiv s' = true) : (v.flow b s).equiv (v.flow b s') = true := by
  have hF := validatesCells_flow (v := v) b
  rw [AnalysisState.equiv_iff (hF.distinct hs hd) (hF.distinct hs' hd')]
  exact hF.get_eq hs hs' ((AnalysisState.equiv_iff hd hd').mp heq)

/-! ### Hazard events -/

variable (v)

/-- The events of an operation whose parent dereferences it: each parameter it exposes, at the
operation's site. -/
def exposedEvents (op : Operation) (s : AnalysisState) : List (ParamRef × Option Span) :=
  (v.exposed op s).map (·, op.info.span)

/-- The events of a call of a method that is not a nested function: those of each argument bound
to a parameter in the callee's summary, at the argument's site. -/
def regularEvents (answers : Option (MethodId → Option UsageMap)) (callee : MethodId)
    (args : List Operation) (s : AnalysisState) : List (ParamRef × Option Span) :=
  if v.consultsSummary callee args then
    match answers.bind (· callee) with
    | some summary =>
      ((args.zip (List.range args.length)).filter fun e =>
        (v.boundParameter callee args e.2 e.1).any summary.contains).flatMap fun e => v.exposedEvents e.1 s
    | none => []
  else []

/-- The events of a call of a nested function: each entry of its summary whose parameter has a
hazardous location in the state, at the summary's site. -/
def nestedEvents (answers : Option (MethodId → Option UsageMap)) (callee : MethodId) (s : AnalysisState) :
    List (ParamRef × Option Span) :=
  match answers.bind (· callee) with
  | some summary => summary.entries.filter fun e => s.hazardous.any (·.parameter? == some e.1)
  | none => []

/-- The events of the call an operation makes, if it makes one. -/
def callEvents (answers : Option (MethodId → Option UsageMap)) (s : AnalysisState) (op : Operation) :
    List (ParamRef × Option Span) :=
  match op.kind, op.info.method with
  | .invocation, some callee =>
    if v.prog.isNested callee then nestedEvents answers callee s
    else v.regularEvents answers callee op.arguments s
  | .objectCreation, some callee => v.regularEvents answers callee op.arguments s
  | _, _ => []

/-- The events of a visit: its call's, from the state before the call, then, when the parent
dereferences the operation, those it exposes in the state after the call. -/
def visitEvents (answers : Option (MethodId → Option UsageMap)) (s : AnalysisState)
    (step : Operation × Bool) : List (ParamRef × Option Span) :=
  v.callEvents answers s step.1 ++ if step.2 then v.exposedEvents step.1 (v.visitFlow s step) else []

/-- The events of visiting steps in order from a state. -/
def walkEvents (answers : Option (MethodId → Option UsageMap)) :
    AnalysisState → List (Operation × Bool) → List (ParamRef × Option Span)
  | _, [] => []
  | s, step :: steps => v.visitEvents answers s step ++ walkEvents answers (v.visitFlow s step) steps

/-- The hazard events of the transfer of a block from a state. -/
def blockEvents (answers : Option (MethodId → Option UsageMap)) (b : BlockId) (s : AnalysisState) :
    List (ParamRef × Option Span) :=
  v.walkEvents answers s (v.steps b)

variable {v}

/-! ### The parameters of the events are the hazards -/

section Params

variable {answers : Option (MethodId → Option UsageMap)}

theorem map_fst_exposedEvents (op : Operation) (s : AnalysisState) :
    (v.exposedEvents op s).map Prod.fst = v.exposed op s := by
  simp [exposedEvents, Function.comp_def]

theorem map_fst_regularEvents (callee : MethodId) (args : List Operation) (s : AnalysisState) :
    (v.regularEvents answers callee args s).map Prod.fst = v.regularHazards answers callee args s := by
  unfold regularEvents regularHazards
  split
  · cases answers.bind (· callee) with
    | none => rfl
    | some summary => simp only [List.map_flatMap, map_fst_exposedEvents]
  · rfl

theorem map_fst_nestedEvents (callee : MethodId) (s : AnalysisState) :
    (nestedEvents answers callee s).map Prod.fst = nestedHazards answers callee s := by
  unfold nestedEvents nestedHazards
  cases answers.bind (· callee) with
  | none => rfl
  | some summary => simp [UsageMap.parameters, List.filter_map, Function.comp_def]

theorem map_fst_callEvents (s : AnalysisState) (op : Operation) :
    (v.callEvents answers s op).map Prod.fst = v.callHazards answers s op := by
  unfold callEvents callHazards
  generalize op.kind = k
  generalize op.info.method = callee?
  cases callee? with
  | none => cases k <;> rfl
  | some callee =>
    cases k
    case invocation =>
      dsimp only
      split
      · exact map_fst_nestedEvents _ s
      · exact map_fst_regularEvents _ _ s
    case objectCreation => exact map_fst_regularEvents _ _ s
    all_goals rfl

theorem map_fst_walkEvents : ∀ (s : AnalysisState) (steps : List (Operation × Bool)),
    (v.walkEvents answers s steps).map Prod.fst = v.walkHazards answers s steps
  | _, [] => rfl
  | s, step :: steps => by
    unfold walkEvents walkHazards visitEvents visitHazards
    rw [List.map_append, List.map_append, map_fst_callEvents, map_fst_walkEvents]
    split <;> simp [map_fst_exposedEvents]

/-- The parameters of the hazard events of a block are its hazards, in order. -/
theorem map_fst_blockEvents (b : BlockId) (s : AnalysisState) :
    (v.blockEvents answers b s).map Prod.fst = v.blockHazards answers b s :=
  map_fst_walkEvents s (v.steps b)

end Params

/-! ### Events only grow with the state -/

section Mono

variable {answers : Option (MethodId → Option UsageMap)} {a b : AnalysisState}
  (hab : ∀ l, (a.get l).le (b.get l) = true)
include hab

theorem mem_exposedEvents_of_le {op : Operation} {e : ParamRef × Option Span} (he : e ∈ v.exposedEvents op a) :
    e ∈ v.exposedEvents op b := by
  obtain ⟨p, hp, rfl⟩ := List.mem_map.mp he
  exact List.mem_map.mpr ⟨p, mem_exposed_of_le hab hp, rfl⟩

theorem mem_regularEvents_of_le {callee : MethodId} {args : List Operation} {e : ParamRef × Option Span}
    (he : e ∈ v.regularEvents answers callee args a) : e ∈ v.regularEvents answers callee args b := by
  unfold regularEvents at he ⊢
  split at he
  · rw [if_pos ‹_›]
    revert he
    cases answers.bind (· callee) with
    | none => exact id
    | some summary =>
      simp only [List.mem_flatMap]
      rintro ⟨arg, harg, he⟩
      exact ⟨arg, harg, mem_exposedEvents_of_le hab he⟩
  · exact (List.not_mem_nil he).elim

theorem mem_nestedEvents_of_le (ha : a.Distinct) {callee : MethodId} {e : ParamRef × Option Span}
    (he : e ∈ nestedEvents answers callee a) : e ∈ nestedEvents answers callee b := by
  -- an entry blames its parameter exactly when the parameter is among the nested hazards
  have hmem : ∀ s : AnalysisState, e ∈ nestedEvents answers callee s ↔
      (answers.bind (· callee)).any (e ∈ ·.entries) ∧ e.1 ∈ nestedHazards answers callee s := by
    intro s
    unfold nestedEvents nestedHazards
    cases answers.bind (· callee) with
    | none => simp
    | some summary =>
      simp only [List.mem_filter, Option.any_some, decide_eq_true_eq, UsageMap.parameters, List.mem_map]
      constructor
      · rintro ⟨he, hhz⟩
        exact ⟨he, ⟨e, he, rfl⟩, hhz⟩
      · rintro ⟨he, -, hhz⟩
        exact ⟨he, hhz⟩
  rw [hmem] at he ⊢
  exact ⟨he.1, mem_nestedHazards_of_le hab ha he.2⟩

theorem mem_callEvents_of_le (ha : a.Distinct) {op : Operation} {e : ParamRef × Option Span}
    (he : e ∈ v.callEvents answers a op) : e ∈ v.callEvents answers b op := by
  unfold callEvents at he ⊢
  revert he
  generalize op.kind = k
  generalize op.info.method = callee?
  cases callee? with
  | none => cases k <;> exact id
  | some callee =>
    cases k
    case invocation =>
      dsimp only
      by_cases hn : v.prog.isNested callee = true
      · rw [if_pos hn, if_pos hn]
        exact mem_nestedEvents_of_le hab ha
      · rw [if_neg hn, if_neg hn]
        exact mem_regularEvents_of_le hab
    case objectCreation => exact mem_regularEvents_of_le hab
    all_goals exact id

end Mono

/-- What the walk records from a state of the procedure it records from every state above it. -/
theorem mem_walkEvents_of_le {answers : Option (MethodId → Option UsageMap)} {e : ParamRef × Option Span} :
    ∀ (steps : List (Operation × Bool)) (a b : AnalysisState), a.tracks = v.tracks → b.tracks = v.tracks →
      a.Distinct → (∀ l, (a.get l).le (b.get l) = true) →
      e ∈ v.walkEvents answers a steps → e ∈ v.walkEvents answers b steps
  | [], _, _, _, _, _, _, he => he
  | step :: steps, a, b, ha, hb, hda, hab, he => by
    have hflow := validatesCells_visitFlow (v := v) step
    -- each step keeps both states the procedure's, the first below the second
    have hab' := hflow.get_le ha hb hab
    unfold walkEvents visitEvents at he ⊢
    rcases List.mem_append.mp he with he | he
    · refine List.mem_append_left _ ?_
      rcases List.mem_append.mp he with he | he
      · exact List.mem_append_left _ (mem_callEvents_of_le hab hda he)
      · refine List.mem_append_right _ ?_
        split at he
        · rw [if_pos ‹_›]
          exact mem_exposedEvents_of_le hab' he
        · exact (List.not_mem_nil he).elim
    · exact List.mem_append_right _ (mem_walkEvents_of_le steps _ _ (hflow.tracks ha) (hflow.tracks hb)
        (hflow.distinct ha hda) hab' he)

/-! ### The transfer of a block -/

/-- The transfer of a block only validates, and is monotone. -/
theorem transfer_validates_monotone {m : Type → Type} [Monad m] [LawfulMonad m] [MonadAttach m]
    [LawfulMonadAttach m] (v : Procedure) {summaryOf : Option (MethodId → m (Option UsageMap))}
    {answers : Option (MethodId → Option UsageMap)}
    (hfix : Option.Rel (fun lookup answer => ∀ c, Returns (lookup c) (answer c)) summaryOf answers)
    (b : BlockId) {s s' : AnalysisState} (hs : s.tracks = v.tracks) (hs' : s'.tracks = v.tracks)
    (hd : s.Distinct) (hd' : s'.Distinct) :
    Returns (v.transfer summaryOf b s) (v.flow b s) ∧
      AddsKeys ((v.blockEvents answers b s).map Prod.fst) (v.transfer summaryOf b s) ∧
      (s.le s' = true → (v.flow b s).le (v.flow b s') = true) ∧
      (s.equiv s' = true → (v.flow b s).equiv (v.flow b s') = true) ∧
      (v.flow b s).keys = s.keys ∧
      (∀ l, (v.flow b s).get l ≠ s.get l → (s.get l).isHazardous = true ∧ (v.flow b s).get l = .validated) ∧
      (s.le s' = true → ∀ e ∈ v.blockEvents answers b s, e ∈ v.blockEvents answers b s') := by
  refine ⟨v.transfer_returns summaryOf b s, ?_, flow_le b hs hs' hd, flow_equiv b hs hs' hd hd',
    keys_flow b s, fun l => (validatesCells_flow b).changed hs, fun hle e he => ?_⟩
  · rw [map_fst_blockEvents]
    exact transfer_adds hfix b s
  · exact mem_walkEvents_of_le _ s s' hs hs' hd ((AnalysisState.le_iff_get hd s').mp hle) he

end Procedure

/-- The transfer of the body of `f`, from the empty state and from the state where `x` is not
validated, with no summaries: both states are states of the procedure, the first below the
second. -/
theorem transfer_validates_monotone_readLoop :
    (Procedure.new oneParamFacts {} readLoopGraph).emptyState.tracks =
        (Procedure.new oneParamFacts {} readLoopGraph).tracks ∧
      xUnvalidated.tracks = (Procedure.new oneParamFacts {} readLoopGraph).tracks ∧
      (Procedure.new oneParamFacts {} readLoopGraph).emptyState.Distinct ∧ xUnvalidated.Distinct ∧
      ((Procedure.new oneParamFacts {} readLoopGraph).emptyState.le xUnvalidated = true →
        ((Procedure.new oneParamFacts {} readLoopGraph).flow 2
          (Procedure.new oneParamFacts {} readLoopGraph).emptyState).le
          ((Procedure.new oneParamFacts {} readLoopGraph).flow 2 xUnvalidated) = true) ∧
      ((Procedure.new oneParamFacts {} readLoopGraph).flow 2
        (Procedure.new oneParamFacts {} readLoopGraph).emptyState).keys = [] :=
  have h := @Procedure.transfer_validates_monotone Id _ _ _ _ (Procedure.new oneParamFacts {} readLoopGraph)
    none none .none 2 (Procedure.new oneParamFacts {} readLoopGraph).emptyState xUnvalidated rfl rfl
    (AnalysisState.distinct_empty _) (List.nodup_singleton _)
  ⟨rfl, rfl, AnalysisState.distinct_empty _, List.nodup_singleton _, h.2.2.1, h.2.2.2.2.1⟩

end NullGuard
