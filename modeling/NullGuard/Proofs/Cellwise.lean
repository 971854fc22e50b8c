import NullGuard.Proofs.Flow
import NullGuard.Proofs.States

/-!
# The transfer acts on each cell alone

Every step of the transfer that changes the state validates locations: a call that validates
its argument, and at the exit the parameters guarded by an unhandled throw. Which cells a step
validates depends on the step and not on the state, and a validation only turns a hazardous
cell into a validated one. So the transfer of a block validates a fixed set of cells: each
cell reads after the block as before, or `validated` if it was hazardous and in the set
(`validatesCells_flow`). The transfer is then monotone cell by cell
(`ValidatesCells.get_le`).

The states of a procedure, tracking its locations with entries naming distinct cells
(`Procedure.Fact`), form the solver's domain `Procedure.factDomain`: a state is the function it
reads as, joined and compared pointwise. The domain is lawful (`factDomain_lawful`), the
transfer on it is monotone (`monotone_factFlow`), and it maps into the domain the analysis runs
on (`factDomain_hom`), so that the solver's theory applies to the analysis.
-/

namespace NullGuard

namespace Procedure

variable (v : Procedure)

/-- `F` validates a fixed set of cells: on every state of the procedure it keeps the tracked
locations and distinct cells, and each cell reads afterwards as before, or `validated` if it
was hazardous and in the set. -/
def ValidatesCells (F : AnalysisState → AnalysisState) : Prop :=
  ∃ c : Location → Bool, ∀ s, s.tracks = v.tracks →
    (F s).tracks = v.tracks ∧ (s.Distinct → (F s).Distinct) ∧
      ∀ l, (F s).get l = (s.get l).validateIf (c l)

variable {v}

theorem tracks_of_normal_eq {k l : Location} (h : k.normal = l.normal) : v.tracks k = v.tracks l := by
  unfold tracks
  rw [← Location.parameter?_normal k, h, Location.parameter?_normal]

/-! ### Steps that validate cells -/

theorem validatesCells_id : v.ValidatesCells fun s => s :=
  ⟨fun _ => false, fun _ hs => ⟨hs, fun h => h, fun _ => (Validation.validateIf_false _).symm⟩⟩

theorem ValidatesCells.comp {F G : AnalysisState → AnalysisState} (hF : v.ValidatesCells F)
    (hG : v.ValidatesCells G) : v.ValidatesCells fun s => G (F s) := by
  obtain ⟨c, hc⟩ := hF
  obtain ⟨c', hc'⟩ := hG
  refine ⟨fun l => c l || c' l, fun s hs => ?_⟩
  obtain ⟨ht, hd, hget⟩ := hc s hs
  obtain ⟨ht', hd', hget'⟩ := hc' (F s) ht
  exact ⟨ht', fun h => hd' (hd h), fun l => by rw [hget', hget, Validation.validateIf_validateIf]⟩

theorem ValidatesCells.ite (p : Prop) [Decidable p] {F G : AnalysisState → AnalysisState}
    (hF : v.ValidatesCells F) (hG : v.ValidatesCells G) : v.ValidatesCells fun s => if p then F s else G s := by
  by_cases hp : p
  · simpa only [if_pos hp] using hF
  · simpa only [if_neg hp] using hG

theorem validatesCells_foldl {γ : Type} (F : γ → AnalysisState → AnalysisState)
    (hF : ∀ x, v.ValidatesCells (F x)) : ∀ xs : List γ, v.ValidatesCells fun s => xs.foldl (fun s x => F x s) s
  | [] => validatesCells_id
  | x :: xs => (hF x).comp (validatesCells_foldl F hF xs)

/-- Writing `validated` to the hazardous ones among fixed locations validates cells. -/
theorem validatesCells_setAll (ls : List Location) (sel : AnalysisState → List Location)
    (hsel : ∀ s k, k ∈ sel s ↔ k ∈ ls ∧ s.isHazardous k = true) :
    v.ValidatesCells fun s => s.setAll (sel s) .validated := by
  refine ⟨fun l => v.tracks l && ls.any (·.normal == l.normal), fun s hs => ?_⟩
  refine ⟨by rw [AnalysisState.tracks_setAll, hs], fun hd => hd.setAll _ _, fun l => ?_⟩
  have htr : ∀ k l : Location, k.normal = l.normal → s.tracks k = s.tracks l := fun k l h => by
    rw [hs]
    exact tracks_of_normal_eq h
  rw [AnalysisState.get_setAll_hazardous htr (hsel s) l, hs]

theorem validatesCells_validate (op : Operation) : v.ValidatesCells (v.validate op) :=
  validatesCells_setAll (v.locations op) (v.notValidated op) fun s k => by
    rw [notValidated, List.mem_mergeSort, List.mem_filter]

theorem validatesCells_callFlow (callee : MethodId) (args : List Operation) :
    v.ValidatesCells (v.callFlow callee args) := by
  unfold callFlow
  refine ValidatesCells.ite _ ?_ validatesCells_id
  cases args with
  | nil => exact validatesCells_id
  | cons a _ => exact validatesCells_validate a

theorem validatesCells_visitFlow (step : Operation × Bool) :
    v.ValidatesCells fun s => v.visitFlow s step := by
  obtain ⟨op, deref⟩ := step
  unfold visitFlow
  dsimp only
  generalize op.kind = k
  generalize op.info.method = callee?
  -- only an invocation or a creation with a resolved callee changes the state
  cases callee? with
  | none => cases k <;> exact validatesCells_id
  | some callee =>
    cases k
    case invocation => exact ValidatesCells.ite _ validatesCells_id (validatesCells_callFlow _ _)
    case objectCreation => exact validatesCells_callFlow _ _
    all_goals exact validatesCells_id

/-- At the exit, a parameter non-null at the normal exit and maybe null at an unhandled throw
has its hazardous locations validated; nothing else changes. -/
theorem reconcile_eq (s : AnalysisState) :
    v.reconcile s = v.trackableParameters.foldl (fun s p =>
      if v.facts.nulls.atExit p = .notNull ∧ v.facts.nulls.atThrows p = .maybeNull then
        s.setAll ((v.paramLocations p).filter s.isHazardous) .validated
      else s) s := by
  unfold reconcile
  congr
  funext t p
  dsimp only
  by_cases hesc : ((v.paramLocations p).filter t.isHazardous).isEmpty = true
  · -- with nothing escaped, validating the escaped locations writes nothing
    have hnil : (v.paramLocations p).filter t.isHazardous = [] := List.isEmpty_iff.mp hesc
    rw [hnil]
    simp [AnalysisState.setAll]
  · cases hexit : v.facts.nulls.atExit p <;> cases hthrow : v.facts.nulls.atThrows p <;>
      simp [hesc]

theorem validatesCells_reconcile : v.ValidatesCells v.reconcile := by
  have h := validatesCells_foldl (v := v) _ (fun p => ValidatesCells.ite
    (v.facts.nulls.atExit p = .notNull ∧ v.facts.nulls.atThrows p = .maybeNull)
    (validatesCells_setAll (v.paramLocations p) _ fun s k => List.mem_filter) validatesCells_id)
    v.trackableParameters
  simpa only [← reconcile_eq] using h

/-- The transfer of a block validates a fixed set of cells. -/
theorem validatesCells_flow (b : BlockId) : v.ValidatesCells (v.flow b) := by
  have hsteps := validatesCells_foldl (v := v) (fun step s => v.visitFlow s step)
    validatesCells_visitFlow (v.steps b)
  exact hsteps.comp (ValidatesCells.ite _ validatesCells_reconcile validatesCells_id)

theorem ValidatesCells.tracks {F : AnalysisState → AnalysisState} (hF : v.ValidatesCells F)
    {s : AnalysisState} (hs : s.tracks = v.tracks) : (F s).tracks = v.tracks := by
  obtain ⟨c, hc⟩ := hF
  exact (hc s hs).1

theorem ValidatesCells.distinct {F : AnalysisState → AnalysisState} (hF : v.ValidatesCells F)
    {s : AnalysisState} (hs : s.tracks = v.tracks) (hd : s.Distinct) : (F s).Distinct := by
  obtain ⟨c, hc⟩ := hF
  exact (hc s hs).2.1 hd

/-- A step that validates cells is monotone cell by cell on the procedure's states. -/
theorem ValidatesCells.get_le {F : AnalysisState → AnalysisState} (hF : v.ValidatesCells F)
    {a b : AnalysisState} (ha : a.tracks = v.tracks) (hb : b.tracks = v.tracks)
    (hab : ∀ l, (a.get l).le (b.get l) = true) (l : Location) : ((F a).get l).le ((F b).get l) = true := by
  obtain ⟨c, hc⟩ := hF
  rw [(hc a ha).2.2 l, (hc b hb).2.2 l]
  exact Validation.validateIf_mono (c l) (hab l)

/-! ### The procedure's states as the solver's domain -/

variable (v)

/-- A state of the procedure: it tracks the procedure's locations, and its entries name
distinct cells. -/
structure Fact where
  state : AnalysisState
  tracks_eq : state.tracks = v.tracks
  distinct : state.Distinct

/-- The solver's domain on the procedure's states. -/
def factDomain : Dataflow.Domain v.Fact where
  bottom := ⟨v.emptyState, rfl, AnalysisState.distinct_empty _⟩
  join a b := ⟨a.state.merge b.state, a.tracks_eq, a.distinct.merge _⟩
  same a b := a.state.equiv b.state

/-- The transfer of a block on the procedure's states. -/
def factFlow (b : BlockId) (x : v.Fact) : v.Fact :=
  ⟨v.flow b x.state, (validatesCells_flow b).tracks x.tracks_eq, (validatesCells_flow b).distinct x.tracks_eq x.distinct⟩

variable {v}

theorem factDomain_same_iff {a b : v.Fact} :
    v.factDomain.same a b = true ↔ ∀ l, a.state.get l = b.state.get l :=
  AnalysisState.equiv_iff a.distinct b.distinct

@[simp] theorem get_factDomain_join (a b : v.Fact) (l : Location) :
    (v.factDomain.join a b).state.get l = (a.state.get l).join (b.state.get l) :=
  AnalysisState.get_merge _ b.distinct l

@[simp] theorem get_factDomain_bottom (l : Location) : v.factDomain.bottom.state.get l = .unknown := rfl

theorem factDomain_lawful : v.factDomain.Lawful where
  same_refl _ := factDomain_same_iff.mpr fun _ => rfl
  same_symm h := factDomain_same_iff.mpr fun l => (factDomain_same_iff.mp h l).symm
  same_trans h h' := factDomain_same_iff.mpr fun l => (factDomain_same_iff.mp h l).trans (factDomain_same_iff.mp h' l)
  join_comm _ _ := factDomain_same_iff.mpr fun _ => by simp [Validation.join_comm]
  join_assoc _ _ _ := factDomain_same_iff.mpr fun _ => by simp [Validation.join_assoc]
  join_self _ := factDomain_same_iff.mpr fun _ => by simp [Validation.join_self]
  bottom_join _ := factDomain_same_iff.mpr fun _ => by simp
  join_congr _ h := factDomain_same_iff.mpr fun l => by simp [factDomain_same_iff.mp h l]

/-- The order of the domain is the order of the diamond at every cell. -/
theorem factDomain_le_iff {a b : v.Fact} :
    v.factDomain.le a b ↔ ∀ l, (a.state.get l).le (b.state.get l) = true := by
  unfold Dataflow.Domain.le
  rw [factDomain_same_iff]
  simp only [get_factDomain_join, Validation.le_iff_join]

theorem monotone_factFlow : v.factDomain.Monotone v.factFlow := by
  intro b x y hxy
  rw [factDomain_le_iff] at hxy ⊢
  exact (validatesCells_flow b).get_le x.tracks_eq y.tracks_eq hxy

/-- Forgetting that a state is one of the procedure's maps the domain into the one the
analysis runs on. -/
theorem factDomain_hom : Dataflow.Domain.Hom v.factDomain v.domain Fact.state :=
  ⟨rfl, fun _ _ => rfl, fun _ _ => rfl⟩

end Procedure

end NullGuard
