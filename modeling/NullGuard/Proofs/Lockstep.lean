import NullGuard.Proofs.Replay

/-!
# Two runs of the transfer in lockstep

The transfer asks for summaries in a monad of its own choosing. Two runs of one procedure that
differ only in how summaries are asked for stay related step by step, as long as each pair of
summary requests is: this file states that once, for any relation between steps that holds of
equal pure steps and of equal reads and updates of the hazard log, and is closed under
sequencing (`StepRel`). The transfer is written with nothing else, so such a relation relates
two solves whose summary requests it relates (`Procedure.solve_rel`).

`Lockstep E Q z w`, for a relation `E` between the states of two computations, says that from
related states they return values related by `Q` and leave related states. On the steps of the
transfer, with equal values, it is a `StepRel` (`stepRel_visitLockstep`).
-/

namespace NullGuard

/-- A relation between steps of the transfer, each asking for summaries in its own monad, that
holds of equal pure steps and equal reads and updates of the hazard log, and is closed under
sequencing. -/
structure StepRel {m₁ m₂ : Type → Type} [Monad m₁] [Monad m₂]
    (R : ∀ {α : Type}, VisitM m₁ α → VisitM m₂ α → Prop) : Prop where
  pure : ∀ {α : Type} (a : α), R (Pure.pure a) (Pure.pure a)
  bind : ∀ {α β : Type} {x : VisitM m₁ α} {y : VisitM m₂ α} {k : α → VisitM m₁ β}
    {k' : α → VisitM m₂ β}, R x y → (∀ a, R (k a) (k' a)) → R (x >>= k) (y >>= k')
  get : R (MonadState.get : VisitM m₁ HazardLog) MonadState.get
  modify : ∀ g : HazardLog → HazardLog, R (modify g : VisitM m₁ PUnit) (modify g)

namespace StepRel

variable {m₁ m₂ : Type → Type} {R : ∀ {α : Type}, VisitM m₁ α → VisitM m₂ α → Prop} {α β : Type}

theorem ite (c : Prop) [Decidable c] {x x' : VisitM m₁ α} {y y' : VisitM m₂ α} (h : R x y) (h' : R x' y') :
    R (if c then x else x') (if c then y else y') := by
  by_cases hc : c
  · simpa only [if_pos hc] using h
  · simpa only [if_neg hc] using h'

variable [Monad m₁] [Monad m₂] (hR : StepRel R)
include hR

theorem map [LawfulMonad m₁] [LawfulMonad m₂] {x : VisitM m₁ α} {y : VisitM m₂ α} (h : R x y) (g : α → β) :
    R (g <$> x) (g <$> y) := by
  rw [map_eq_pure_bind, map_eq_pure_bind]
  exact hR.bind h fun a => hR.pure (g a)

theorem forM {γ : Type} (f : γ → VisitM m₁ PUnit) (f' : γ → VisitM m₂ PUnit) :
    ∀ (l : List γ), (∀ a ∈ l, R (f a) (f' a)) → R (l.forM f) (l.forM f')
  | [], _ => hR.pure PUnit.unit
  | a :: l, hf => by
    rw [show (a :: l).forM f = (f a >>= fun _ => l.forM f) from rfl,
      show (a :: l).forM f' = (f' a >>= fun _ => l.forM f') from rfl]
    exact hR.bind (hf a List.mem_cons_self) fun _ =>
      forM f f' l fun a' ha' => hf a' (List.mem_cons_of_mem _ ha')

theorem forIn {γ ρ : Type} (f : γ → ρ → VisitM m₁ (ForInStep ρ)) (f' : γ → ρ → VisitM m₂ (ForInStep ρ)) :
    ∀ (l : List γ) (b : ρ), (∀ a ∈ l, ∀ b, R (f a b) (f' a b)) → R (forIn l b f) (forIn l b f')
  | [], b, _ => by simpa using hR.pure b
  | a :: l, b, hf => by
    rw [List.forIn_cons, List.forIn_cons]
    refine hR.bind (hf a List.mem_cons_self b) fun r => ?_
    cases r with
    | done b' => exact hR.pure b'
    | yield b' => exact forIn f f' l b' fun a' ha' => hf a' (List.mem_cons_of_mem _ ha')

theorem foldlM {γ : Type} (f : α → γ → VisitM m₁ α) (f' : α → γ → VisitM m₂ α) :
    ∀ (l : List γ) (a : α), (∀ e ∈ l, ∀ a, R (f a e) (f' a e)) → R (l.foldlM f a) (l.foldlM f' a)
  | [], a, _ => by simpa using hR.pure a
  | e :: l, a, hf => by
    rw [List.foldlM_cons, List.foldlM_cons]
    exact hR.bind (hf e List.mem_cons_self a) fun a' =>
      foldlM f f' l a' fun e' he' => hf e' (List.mem_cons_of_mem _ he')

end StepRel

/-! ### The transfer, step by step -/

namespace Procedure

variable (v : Procedure) {m₁ m₂ : Type → Type} [Monad m₁] [Monad m₂]
  {R : ∀ {α : Type}, VisitM m₁ α → VisitM m₂ α → Prop} (hR : StepRel R)
include hR

theorem record_rel (site : Option Span) (ls : List Location) :
    R (record site ls : VisitM m₁ Unit) (record site ls) := by
  unfold record
  refine hR.forM _ _ ls fun l _ => ?_
  cases l.parameter? with
  | none => exact hR.pure _
  | some p => exact hR.modify _

theorem check_rel (op : Operation) (ls : List Location) :
    R (v.checkHazard op ls : VisitM m₁ Unit) (v.checkHazard op ls) := by
  unfold checkHazard
  exact StepRel.ite _ (hR.pure _) (record_rel hR _ _)

variable {S : MethodId → Prop} {lookup : Option (MethodId → m₁ (Option UsageMap))}
  {lookup' : Option (MethodId → m₂ (Option UsageMap))}
  (hl : Option.Rel (fun f f' => ∀ c, S c → R (liftM (f c) : VisitM m₁ _) (liftM (f' c))) lookup lookup')
include hl

theorem regular_rel {callee : MethodId} (hc : S callee) (args : List Operation) (s : AnalysisState) :
    R (v.callRegular lookup callee args s) (v.callRegular lookup' callee args s) := by
  unfold callRegular
  dsimp only
  refine StepRel.ite _ (StepRel.ite _ (hR.pure _) (hR.pure _)) (StepRel.ite _ ?_ ?_)
  · split_ifs <;> exact hR.pure _
  cases hl with
  | none => exact hR.pure s
  | @some f f' h =>
    dsimp only
    refine StepRel.ite _ (hR.pure s) (hR.bind (h callee hc) fun o => ?_)
    cases o with
    | none => exact hR.pure s
    | some summary =>
      refine StepRel.ite _ (hR.pure s) (hR.bind (hR.forIn _ _ _ _ fun e _ b => ?_) fun _ => hR.pure s)
      obtain ⟨arg, i⟩ := e
      dsimp only
      cases v.boundParameter callee args i arg with
      | none => exact hR.pure _
      | some q => exact StepRel.ite _ (hR.bind (v.check_rel hR arg _) fun _ => hR.pure _) (hR.pure _)

theorem nested_rel {callee : MethodId} (hc : S callee) (s : AnalysisState) :
    R (v.callNested lookup callee s) (v.callNested lookup' callee s) := by
  unfold callNested
  cases hl with
  | none => exact hR.pure s
  | @some f f' h =>
    refine hR.bind (h callee hc) fun o => ?_
    cases o with
    | none => exact hR.pure s
    | some summary =>
      dsimp only
      refine StepRel.ite _ (hR.pure s) (StepRel.ite _ (hR.pure s)
        (hR.bind (hR.forIn _ _ _ _ fun e _ b => ?_) fun _ => hR.pure s))
      obtain ⟨q, site⟩ := e
      exact hR.bind hR.get fun log =>
        StepRel.ite _ (hR.bind (record_rel hR _ _) fun _ => hR.pure _) (hR.pure _)

theorem visit_rel (s : AnalysisState) (step : Operation × Bool) (hc : ∀ c, step.1.callee? = some c → S c) :
    R (v.visit lookup s step) (v.visit lookup' s step) := by
  obtain ⟨op, deref⟩ := step
  unfold Operation.callee? at hc
  unfold visit
  dsimp only at hc ⊢
  -- the hazard check after the call, from whatever state the call leaves
  have hderef : ∀ s', R
      (if deref = true then v.checkHazard op (v.notValidated op s') >>= fun _ => pure s' else pure s' :
        VisitM m₁ AnalysisState)
      (if deref = true then v.checkHazard op (v.notValidated op s') >>= fun _ => pure s' else pure s') :=
    fun s' => StepRel.ite _ (hR.bind (v.check_rel hR _ _) fun _ => hR.pure _) (hR.pure _)
  generalize op.kind = k at hc ⊢
  generalize op.info.method = callee? at hc ⊢
  cases callee? with
  | none => cases k <;> exact hR.bind (hR.pure s) hderef
  | some callee =>
    cases k
    case invocation =>
      exact StepRel.ite _ (hR.bind (v.nested_rel hR hl (hc callee rfl) s) hderef)
        (hR.bind (v.regular_rel hR hl (hc callee rfl) _ s) hderef)
    case objectCreation => exact hR.bind (v.regular_rel hR hl (hc callee rfl) _ s) hderef
    all_goals exact hR.bind (hR.pure s) hderef

theorem transfer_rel (b : BlockId) (s : AnalysisState) (hc : ∀ c ∈ (v.graph.block b).callees, S c) :
    R (v.transfer lookup b s) (v.transfer lookup' b s) := by
  unfold transfer
  dsimp only
  refine hR.bind (hR.foldlM _ _ _ s fun step hstep s => v.visit_rel hR hl s step fun c hcall => hc c ?_)
    fun _ => hR.pure _
  exact List.mem_filterMap.mpr ⟨step, hstep, hcall⟩

/-- Two solves of one procedure are related when their summary requests are, for every callee
of the procedure's blocks. -/
theorem solve_rel [LawfulMonad m₁] [LawfulMonad m₂] (g : Graph) (budget : Nat) (hc : ∀ b, ∀ c ∈ (v.graph.block b).callees, S c) :
    R (Dataflow.solve g v.domain (v.transfer lookup) v.initialState budget)
      (Dataflow.solve g v.domain (v.transfer lookup') v.initialState budget) := by
  rw [Dataflow.solve_factor (v.transfer lookup) (v.transfer_returns lookup),
    Dataflow.solve_factor (v.transfer lookup') (v.transfer_returns lookup')]
  exact hR.bind (hR.forM _ _ _ fun w _ => hR.map (v.transfer_rel hR hl w.1 w.2 (hc w.1)) _)
    fun _ => hR.pure _

end Procedure

/-! ### Runs from related states -/

section Lockstep

variable {σ τ α β γ δ : Type} (E : σ → τ → Prop)

/-- From related states, `z` and `w` return values related by `Q` and leave related states. -/
def Lockstep (Q : α → β → Prop) (z : StateM σ α) (w : StateM τ β) : Prop :=
  ∀ s t, E s t → Q (z.run s).1 (w.run t).1 ∧ E (z.run s).2 (w.run t).2

/-- `Lockstep` for the steps of the transfer, with equal values, from every hazard log. -/
def VisitLockstep (x : VisitM (StateM σ) α) (y : VisitM (StateM τ) α) : Prop :=
  ∀ log, Lockstep E Eq (x.run log) (y.run log)

variable {E}

namespace Lockstep

theorem pure {Q : α → β → Prop} {a : α} {b : β} (h : Q a b) :
    Lockstep E Q (Pure.pure a : StateM σ α) (Pure.pure b : StateM τ β) :=
  fun _ _ hst => ⟨h, hst⟩

theorem bind {Q : α → β → Prop} {Q' : γ → δ → Prop} {z : StateM σ α} {w : StateM τ β}
    {k : α → StateM σ γ} {k' : β → StateM τ δ} (hz : Lockstep E Q z w)
    (hk : ∀ a b, Q a b → Lockstep E Q' (k a) (k' b)) : Lockstep E Q' (z >>= k) (w >>= k') := by
  intro s t hst
  obtain ⟨hq, hst'⟩ := hz s t hst
  exact hk _ _ hq _ _ hst'

theorem map {Q : α → β → Prop} {Q' : γ → δ → Prop} {z : StateM σ α} {w : StateM τ β}
    (h : Lockstep E Q z w) (g : α → γ) (g' : β → δ) (hg : ∀ a b, Q a b → Q' (g a) (g' b)) :
    Lockstep E Q' (g <$> z) (g' <$> w) := by
  rw [map_eq_pure_bind, map_eq_pure_bind]
  exact h.bind fun a b hab => pure (hg a b hab)

end Lockstep

theorem stepRel_visitLockstep : StepRel (fun {α} => @VisitLockstep σ τ α E) where
  pure a _ := by
    rw [StateT.run_pure, StateT.run_pure]
    exact Lockstep.pure rfl
  bind hx hk log := by
    rw [StateT.run_bind, StateT.run_bind]
    exact (hx log).bind fun p p' hp => hp ▸ hk p.1 p.2
  get log := by
    rw [StateT.run_get, StateT.run_get]
    exact Lockstep.pure rfl
  modify g log := by
    rw [StateT.run_modify, StateT.run_modify]
    exact Lockstep.pure rfl

/-- A summary request in lockstep, lifted to the steps of the transfer. -/
theorem VisitLockstep.lift {z : StateM σ α} {w : StateM τ α} (h : Lockstep E Eq z w) :
    VisitLockstep E (liftM z : VisitM (StateM σ) α) (liftM w : VisitM (StateM τ) α) := fun log => by
  rw [StateT.run_monadLift, StateT.run_monadLift]
  exact h.bind fun a b hab => Lockstep.pure (by rw [hab])

end Lockstep


/-- The analysis of a body runs in lockstep with itself when its summary requests do. -/
theorem Analysis.analyzeBody_lockstep {E : Session → Session → Prop} (env : Analysis.Env)
    {f₁ f₀ : MethodId → SessionM (Option UsageMap)} (hf : ∀ c, Lockstep E Eq (f₁ c) (f₀ c)) (p : MethodId) :
    Lockstep E Eq (Analysis.analyzeBody env f₁ p) (Analysis.analyzeBody env f₀ p) := by
  unfold Analysis.analyzeBody Dataflow.solveTimed
  cases env.facts.graph? p with
  | none => exact Lockstep.pure rfl
  | some g =>
    simp only
    cases g.validate (env.prog.methodRepr p) with
    | error _ => exact Lockstep.pure rfl
    | ok u =>
      cases u
      have hl : Option.Rel (fun f f' => ∀ c, True → VisitLockstep E (liftM (f c)) (liftM (f' c)))
          (if env.options.interprocedural then some f₁ else none)
          (if env.options.interprocedural then some f₀ else none) := by
        split
        · exact .some fun c _ => VisitLockstep.lift (hf c)
        · exact .none
      refine Lockstep.bind (stepRel_visitLockstep.map ((Procedure.new env.facts env.options g).solve_rel
        stepRel_visitLockstep hl g _ fun _ _ _ => trivial) _ {}) fun a b hab => ?_
      subst hab
      obtain ⟨res, log⟩ := a
      cases res <;> exact Lockstep.pure rfl

end NullGuard
