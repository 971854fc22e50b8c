import NullGuard.Analysis.Transfer
import NullGuard.Proofs.Trace

/-!
# The dataflow of the transfer

The transfer of a procedure asks for callee summaries and records hazards, but the state it
returns depends on neither. A call validates its first argument when the callee is a
null-check predicate of the string type, or a constructor or serialization hook of an
exception type taking serialization info (`Procedure.validatesArgument`); every other call,
nested functions included, leaves the state alone. `Procedure.flow` is the transfer that
follows from this alone, and `transfer_returns` says that the transfer, in any monad and with
any summaries, returns what `flow` gives.

What a computation keeps of the hazard log is said by `KeepsLog I x`: every run of `x` that can
return, from a log satisfying `I`, ends in a log satisfying `I`, whatever the summaries it asks
for answer. The rules below carry it through pure steps, binds, lifted summary requests, reads
and writes of the log, and loops.
-/

namespace NullGuard

namespace Procedure

variable (v : Procedure)

/-! ### The pure transfer -/

/-- Whether a call validates its first argument: a static one-parameter predicate of the string
type named with the null-check prefix, or a constructor or serialization hook of a type
deriving from the exception type whose first parameter has the serialization-info type. -/
def validatesArgument (callee : MethodId) (args : List Operation) : Bool :=
  let info := v.prog.method callee
  if v.stringType.isSome && v.stringType == some info.owner then
    info.isStatic && info.name.startsWith v.options.nullCheckPrefix && info.params.length == 1 &&
      args.length == 1
  else
    !info.params.isEmpty && !args.isEmpty && v.exceptionType.isSome &&
      v.prog.derivesFrom info.owner v.exceptionType &&
      (v.serializationType.isSome && info.params.head?.map (·.type) == v.serializationType) &&
      (info.kind == .constructor || (info.kind == .ordinary &&
        Text.lower info.name == Text.lower v.options.serializationMethodName))

/-- What a call of a method that is not a nested function does to the state. -/
def callFlow (callee : MethodId) (args : List Operation) (s : AnalysisState) : AnalysisState :=
  if v.validatesArgument callee args then
    match args with
    | a :: _ => v.validate a s
    | [] => s
  else s

/-- What visiting an operation does to the state. -/
def visitFlow (s : AnalysisState) (step : Operation × Bool) : AnalysisState :=
  match step.1.kind, step.1.info.method with
  | .invocation, some callee => if v.prog.isNested callee then s else v.callFlow callee step.1.arguments s
  | .objectCreation, some callee => v.callFlow callee step.1.arguments s
  | _, _ => s

/-- The operations a block visits, in order, each with whether its parent dereferences it. -/
def steps (b : BlockId) : List (Operation × Bool) :=
  (v.graph.block b).ops.flatMap fun top => top.visits false

/-- What the transfer of a block does to the state. -/
def flow (b : BlockId) (s : AnalysisState) : AnalysisState :=
  let s := (v.steps b).foldl v.visitFlow s
  if (v.graph.block b).role == .exit && v.reconciles then v.reconcile s else s

/-! ### Summaries never change the dataflow -/

variable {m : Type → Type} [Monad m] [LawfulMonad m] (summaryOf : Option (MethodId → m (Option UsageMap)))

theorem callRegular_returns (callee : MethodId) (args : List Operation) (s : AnalysisState) :
    Returns (v.callRegular summaryOf callee args s) (v.callFlow callee args s) := by
  unfold callRegular callFlow validatesArgument
  dsimp only
  by_cases hstr : (v.stringType.isSome && v.stringType == some (v.prog.method callee).owner) = true
  · -- a predicate of the string type validates its argument when it is a null check
    simp only [hstr, if_true]
    exact Returns.ite (Returns.pure _) (Returns.pure _)
  · simp only [hstr, if_false, Bool.false_eq_true]
    by_cases hexc : (!(v.prog.method callee).params.isEmpty && !args.isEmpty &&
        v.exceptionType.isSome && v.prog.derivesFrom (v.prog.method callee).owner v.exceptionType) = true
    · -- an exception type's constructor or hook validates it after three tests on the callee
      simp only [hexc, if_true, Bool.true_and]
      simp only [Bool.and_eq_true, ite_and]
      repeat' refine Returns.ite ?_ (Returns.pure _)
      exact Returns.pure _
    · -- any other call may ask for a summary, and returns the state as it was
      simp only [hexc, if_false, Bool.false_and, Bool.false_eq_true]
      cases summaryOf with
      | none => exact Returns.pure _
      | some lookup =>
        dsimp only
        by_cases hvis : v.prog.methodVisible callee = true
        · rw [if_pos hvis]
          exact Returns.pure _
        · rw [if_neg hvis]
          refine Returns.bind_const fun r => ?_
          cases r with
          | none => exact Returns.pure _
          | some summary =>
            dsimp only
            by_cases hempty : summary.isEmpty = true
            · rw [if_pos hempty]
              exact Returns.pure _
            · rw [if_neg hempty]
              exact Returns.bind_const fun _ => Returns.pure _

theorem callNested_returns (callee : MethodId) (s : AnalysisState) :
    Returns (v.callNested summaryOf callee s) s := by
  unfold callNested
  cases summaryOf with
  | none => exact Returns.pure _
  | some lookup =>
    refine Returns.bind_const fun r => ?_
    cases r with
    | none => exact Returns.pure _
    | some summary =>
      dsimp only
      split
      · exact Returns.pure _
      · split
        · exact Returns.pure _
        · exact Returns.bind_const fun _ => Returns.pure _

/-- The hazard check after a call returns the state it is given. -/
theorem check_returns (op : Operation) (deref : Bool) (s : AnalysisState) :
    Returns (if deref = true then v.checkHazard (m := m) op (v.notValidated op s) >>= fun _ => pure s
      else pure s) s := by
  split
  · exact Returns.bind_const fun _ => Returns.pure s
  · exact Returns.pure s

/-- An operation that calls nothing returns the state it is given. -/
theorem skip_returns (op : Operation) (deref : Bool) (s : AnalysisState) :
    Returns (pure s >>= fun s => if deref = true then v.checkHazard (m := m) op (v.notValidated op s) >>=
      fun _ => pure s else pure s) s := by
  rw [pure_bind]
  exact v.check_returns op deref s

theorem visit_returns (s : AnalysisState) (step : Operation × Bool) :
    Returns (v.visit summaryOf s step) (v.visitFlow s step) := by
  obtain ⟨op, deref⟩ := step
  unfold visit visitFlow
  dsimp only
  generalize op.kind = k
  generalize op.info.method = callee?
  -- only an invocation or a creation with a resolved callee calls anything
  cases callee? with
  | none => cases k <;> exact v.skip_returns op deref s
  | some callee =>
    cases k
    case invocation =>
      exact Returns.ite ((v.callNested_returns summaryOf _ s).bind (v.check_returns _ _ _))
        ((v.callRegular_returns summaryOf _ _ s).bind (v.check_returns _ _ _))
    case objectCreation => exact (v.callRegular_returns summaryOf _ _ s).bind (v.check_returns _ _ _)
    all_goals exact v.skip_returns op deref s

/-- The transfer returns what `flow` gives, in any monad and with any summaries. -/
theorem transfer_returns (b : BlockId) (s : AnalysisState) :
    Returns (v.transfer summaryOf b s) (v.flow b s) := by
  unfold transfer flow
  exact Returns.bind (Returns.foldlM (v.visit_returns summaryOf) (v.steps b) s) (Returns.pure _)

end Procedure

/-! ### Hazard logs and the summaries made of them -/

theorem HazardLog.contains_iff {log : HazardLog} {p : ParamRef} :
    log.contains p = true ↔ ∃ e ∈ log.entries, e.1 = p := by
  unfold HazardLog.contains
  rw [List.lookup_isSome_iff]
  simp only [beq_iff_eq]
  exact ⟨fun ⟨e, he, h⟩ => ⟨e, he, h.symm⟩, fun ⟨e, he, h⟩ => ⟨e, he, h.symm⟩⟩

@[simp] theorem HazardLog.contains_empty (p : ParamRef) : ({} : HazardLog).contains p = false := rfl

/-- A summary lists exactly the parameters of the entries it is made of. -/
theorem UsageMap.mem_parameters_ofList_iff {prog : Program} {es : List (ParamRef × Option Span)}
    {q : ParamRef} : q ∈ (UsageMap.ofList prog es).parameters ↔ ∃ e ∈ es, e.1 = q := by
  unfold UsageMap.ofList UsageMap.parameters
  simp only [List.mem_map, List.mem_mergeSort]
  -- each step of the de-duplication keeps the keys it has and adds the key of its entry
  have step : ∀ (acc : List (ParamRef × Option Span)) (e : ParamRef × Option Span),
      (∃ x ∈ (if acc.any (·.1 == e.1) then acc.map fun x => if x.1 == e.1 then e else x else acc ++ [e]),
        x.1 = q) ↔ (∃ x ∈ acc, x.1 = q) ∨ e.1 = q := by
    intro acc e
    split
    · rename_i hany
      obtain ⟨y, hy, hye⟩ := List.any_eq_true.mp hany
      simp only [List.mem_map]
      constructor
      · rintro ⟨_, ⟨x, hx, rfl⟩, hxq⟩
        split at hxq
        · exact .inr hxq
        · exact .inl ⟨x, hx, hxq⟩
      · rintro (⟨x, hx, hxq⟩ | heq)
        · refine ⟨_, ⟨x, hx, rfl⟩, ?_⟩
          split
          · rename_i hxe
            rw [← hxq, beq_iff_eq.mp hxe]
          · exact hxq
        · refine ⟨_, ⟨y, hy, rfl⟩, ?_⟩
          rw [if_pos hye, heq]
    · simp only [List.mem_append, List.mem_singleton]
      constructor
      · rintro ⟨x, hx | rfl, hxq⟩
        · exact .inl ⟨x, hx, hxq⟩
        · exact .inr hxq
      · rintro (⟨x, hx, hxq⟩ | heq)
        · exact ⟨x, .inl hx, hxq⟩
        · exact ⟨e, .inr rfl, heq⟩
  have hfold : ∀ (es acc : List (ParamRef × Option Span)),
      (∃ x ∈ es.foldl (fun acc e => if acc.any (·.1 == e.1) then acc.map fun x => if x.1 == e.1 then e else x
        else acc ++ [e]) acc, x.1 = q) ↔ (∃ x ∈ acc, x.1 = q) ∨ ∃ e ∈ es, e.1 = q := by
    intro es
    induction es with
    | nil => simp
    | cons e es ih =>
      intro acc
      rw [List.foldl_cons, ih, step]
      simp only [List.mem_cons, exists_eq_or_imp, or_assoc]
  rw [hfold]
  simp

theorem UsageMap.mem_parameters_ofLog {prog : Program} {log : HazardLog} {q : ParamRef} :
    q ∈ (UsageMap.ofLog prog log).parameters ↔ log.contains q = true := by
  rw [UsageMap.ofLog, UsageMap.mem_parameters_ofList_iff, HazardLog.contains_iff]

/-! ### Properties of the hazard log kept by a computation -/

section Log

variable {m : Type → Type} [Monad m] [LawfulMonad m] [MonadAttach m] [LawfulMonadAttach m]
  {α β : Type} {I : HazardLog → Prop}

/-- Every run of `x` that can return, from a log satisfying `I`, ends in a log satisfying `I`. -/
def KeepsLog (I : HazardLog → Prop) (x : VisitM m α) : Prop :=
  ∀ log a log', I log → MonadAttach.CanReturn (x.run log) (a, log') → I log'

namespace KeepsLog

theorem pure (a : α) : KeepsLog I (Pure.pure a : VisitM m α) := by
  intro log b log' hI h
  rw [StateT.run_pure] at h
  cases LawfulMonadAttach.eq_of_canReturn_pure h
  exact hI

theorem bind {x : VisitM m α} {f : α → VisitM m β} (hx : KeepsLog I x) (hf : ∀ a, KeepsLog I (f a)) :
    KeepsLog I (x >>= f) := by
  intro log b log'' hI h
  rw [StateT.run_bind] at h
  obtain ⟨⟨a, log'⟩, h₁, h₂⟩ := LawfulMonadAttach.canReturn_bind_imp' h
  exact hf a log' b log'' (hx log a log' hI h₁) h₂

/-- A bind whose first part always returns `a` keeps what its continuation at `a` keeps. -/
theorem bind_returns {x : VisitM m α} {a : α} {f : α → VisitM m β} (hret : Returns x a)
    (hx : KeepsLog I x) (hf : KeepsLog I (f a)) : KeepsLog I (x >>= f) := by
  rw [hret.bind_eq]
  exact hx.bind fun _ => hf

theorem map {x : VisitM m α} (hx : KeepsLog I x) (g : α → β) : KeepsLog I (g <$> x) := by
  rw [map_eq_pure_bind]
  exact hx.bind fun _ => pure _

/-- A summary request leaves the log alone. -/
theorem lift (y : m α) : KeepsLog I (liftM y : VisitM m α) := by
  intro log a log' hI h
  rw [StateT.run_monadLift, bind_pure_comp] at h
  obtain ⟨b, -, hb⟩ := LawfulMonadAttach.canReturn_map_imp' h
  cases hb
  exact hI

theorem get : KeepsLog I (MonadState.get : VisitM m HazardLog) := by
  intro log a log' hI h
  rw [StateT.run_get] at h
  cases LawfulMonadAttach.eq_of_canReturn_pure h
  exact hI

theorem modify {g : HazardLog → HazardLog} (hg : ∀ log, I log → I (g log)) :
    KeepsLog I (modify g : VisitM m PUnit) := by
  intro log a log' hI h
  rw [StateT.run_modify] at h
  cases LawfulMonadAttach.eq_of_canReturn_pure h
  exact hg log hI

theorem forIn {γ ρ : Type} (f : γ → ρ → VisitM m (ForInStep ρ)) :
    ∀ (l : List γ) (b : ρ), (∀ a ∈ l, ∀ b, KeepsLog I (f a b)) → KeepsLog I (forIn l b f)
  | [], b, _ => by simpa using pure b
  | a :: l, b, hf => by
    rw [List.forIn_cons]
    refine (hf a List.mem_cons_self b).bind fun r => ?_
    cases r with
    | done b' => exact pure b'
    | yield b' => exact forIn f l b' fun a' ha' => hf a' (List.mem_cons_of_mem _ ha')

theorem forM {γ : Type} (f : γ → VisitM m PUnit) :
    ∀ (l : List γ), (∀ a ∈ l, KeepsLog I (f a)) → KeepsLog I (l.forM f)
  | [], _ => pure PUnit.unit
  | a :: l, hf => by
    rw [show (a :: l).forM f = (f a >>= fun _ => l.forM f) from rfl]
    exact (hf a List.mem_cons_self).bind fun _ =>
      forM f l fun a' ha' => hf a' (List.mem_cons_of_mem _ ha')

/-- A fold of steps that return what pure steps give keeps what each step keeps from the
states the pure fold passes through, when those keep a property `P`. -/
theorem foldlM {γ : Type} {step : α → γ → VisitM m α} {pstep : α → γ → α}
    (hret : ∀ s e, Returns (step s e) (pstep s e)) (P : α → Prop) (hP : ∀ s e, P s → P (pstep s e))
    (hstep : ∀ s e, P s → KeepsLog I (step s e)) :
    ∀ (es : List γ) (s : α), P s → KeepsLog I (es.foldlM step s)
  | [], s, _ => by simpa using pure s
  | e :: es, s, hs => by
    rw [List.foldlM_cons]
    exact bind_returns (hret s e) (hstep s e hs) (foldlM hret P hP hstep es _ (hP s e hs))

end KeepsLog

/-- A computation that ends by returning `b` can return nothing else. -/
theorem eq_of_canReturn_bind_pure {x : VisitM m α} {b : β} {log log' : HazardLog} {res : β}
    (h : MonadAttach.CanReturn ((x >>= fun _ => pure b).run log) (res, log')) : res = b := by
  rw [StateT.run_bind] at h
  obtain ⟨_, -, h⟩ := LawfulMonadAttach.canReturn_bind_imp' h
  rw [StateT.run_pure] at h
  exact (Prod.mk.inj (LawfulMonadAttach.eq_of_canReturn_pure h)).1.symm

omit [MonadAttach m] [LawfulMonadAttach m] in
/-- A summary request returns what the request in the underlying monad returns. -/
theorem Returns.liftM {y : m α} {a : α} (hy : Returns y a) : Returns (liftM y : VisitM m α) a := by
  unfold Returns at *
  apply StateT.ext
  intro s
  rw [StateT.run_map, StateT.run_monadLift, ← hy]
  simp

theorem HazardLog.contains_record_iff (log : HazardLog) (p q : ParamRef) (site : Option Span) :
    (log.record p site).2.contains q = true ↔ log.contains q = true ∨ q = p := by
  by_cases hq : q = p
  · subst hq
    simp
  · unfold HazardLog.contains
    rw [HazardLog.lookup_record_ne _ _ hq]
    simp [hq]

/-- Every run of `x` that can return adds exactly the parameters `ks` to the keys of the log. -/
def AddsKeys (ks : List ParamRef) (x : VisitM m α) : Prop :=
  ∀ log a log', MonadAttach.CanReturn (x.run log) (a, log') →
    ∀ p, log'.contains p = true ↔ log.contains p = true ∨ p ∈ ks

namespace AddsKeys

variable {ks ks' : List ParamRef}

omit [Monad m] [LawfulMonad m] [LawfulMonadAttach m] in
theorem congr {x : VisitM m α} (h : ∀ p, p ∈ ks ↔ p ∈ ks') (hx : AddsKeys ks x) : AddsKeys ks' x :=
  fun log a log' hrun p => by rw [hx log a log' hrun p, h]

theorem pure (a : α) : AddsKeys [] (Pure.pure a : VisitM m α) := by
  intro log b log' h p
  rw [StateT.run_pure] at h
  cases LawfulMonadAttach.eq_of_canReturn_pure h
  simp

theorem bind {x : VisitM m α} {f : α → VisitM m β} (hx : AddsKeys ks x) (hf : ∀ a, AddsKeys ks' (f a)) :
    AddsKeys (ks ++ ks') (x >>= f) := by
  intro log b log'' h p
  rw [StateT.run_bind] at h
  obtain ⟨⟨a, log'⟩, h₁, h₂⟩ := LawfulMonadAttach.canReturn_bind_imp' h
  rw [hf a log' b log'' h₂ p, hx log a log' h₁ p, List.mem_append, or_assoc]

/-- A bind whose first part always returns `a` adds the keys of its continuation at `a`. -/
theorem bind_returns {x : VisitM m α} {a : α} {f : α → VisitM m β} (hret : Returns x a)
    (hx : AddsKeys ks x) (hf : AddsKeys ks' (f a)) : AddsKeys (ks ++ ks') (x >>= f) := by
  rw [hret.bind_eq]
  exact hx.bind fun _ => hf

theorem map {x : VisitM m α} (hx : AddsKeys ks x) (g : α → β) : AddsKeys ks (g <$> x) := by
  rw [map_eq_pure_bind]
  exact (hx.bind fun _ => pure _).congr fun p => by simp

omit [Monad m] [LawfulMonad m] [LawfulMonadAttach m] in
theorem ite (c : Prop) [Decidable c] {x y : VisitM m α} (hx : AddsKeys ks x) (hy : AddsKeys ks' y) :
    AddsKeys (if c then ks else ks') (if c then x else y) := by
  by_cases hc : c
  · simpa only [if_pos hc] using hx
  · simpa only [if_neg hc] using hy

/-- A summary request leaves the log alone. -/
theorem lift (y : m α) : AddsKeys [] (liftM y : VisitM m α) := by
  intro log a log' h p
  rw [StateT.run_monadLift, bind_pure_comp] at h
  obtain ⟨b, -, hb⟩ := LawfulMonadAttach.canReturn_map_imp' h
  cases hb
  simp

/-- A summary request that always answers `a`, followed by a continuation, adds the keys of the
continuation at `a`. -/
theorem lift_bind {y : m α} {a : α} {f : α → VisitM m β} (hy : Returns y a) (hf : AddsKeys ks (f a)) :
    AddsKeys ks (liftM y >>= f) :=
  (bind_returns (Returns.liftM hy) (lift y) hf).congr fun p => by simp

theorem modify_record (p : ParamRef) (site : Option Span) :
    AddsKeys [p] (modify fun log => (log.record p site).2 : VisitM m PUnit) := by
  intro log a log' h q
  rw [StateT.run_modify] at h
  cases LawfulMonadAttach.eq_of_canReturn_pure h
  rw [HazardLog.contains_record_iff, List.mem_singleton]

theorem forM {γ : Type} (f : γ → VisitM m PUnit) (kf : γ → List ParamRef) :
    ∀ (l : List γ), (∀ a ∈ l, AddsKeys (kf a) (f a)) → AddsKeys (l.flatMap kf) (l.forM f)
  | [], _ => pure PUnit.unit
  | a :: l, hf => by
    rw [show (a :: l).forM f = (f a >>= fun _ => l.forM f) from rfl, List.flatMap_cons]
    exact (hf a List.mem_cons_self).bind fun _ =>
      forM f kf l fun a' ha' => hf a' (List.mem_cons_of_mem _ ha')

/-- A loop whose every pass goes on adds the keys of all its passes. -/
theorem forIn_yield {γ : Type} (f : γ → PUnit → VisitM m (ForInStep PUnit)) (kf : γ → List ParamRef) :
    ∀ (l : List γ), (∀ a ∈ l, Returns (f a PUnit.unit) (.yield PUnit.unit) ∧ AddsKeys (kf a) (f a PUnit.unit)) →
      AddsKeys (l.flatMap kf) (forIn l PUnit.unit f)
  | [], _ => by simpa using pure PUnit.unit
  | a :: l, hf => by
    rw [List.forIn_cons, List.flatMap_cons]
    obtain ⟨hret, hadds⟩ := hf a List.mem_cons_self
    exact bind_returns hret hadds (forIn_yield f kf l fun a' ha' => hf a' (List.mem_cons_of_mem _ ha'))

/-- Adding keys of one parameter only when it has none yet adds them. -/
theorem unless_contains {x : VisitM m α} {p : ParamRef} (hx : AddsKeys ks x) (hks : ∀ q ∈ ks, q = p)
    (b : α) : AddsKeys ks (MonadState.get >>= fun log => if (!log.contains p) = true then x else Pure.pure b) := by
  intro log a log' h q
  rw [StateT.run_bind, StateT.run_get, pure_bind] at h
  by_cases hp : log.contains p = true
  · -- the parameter is already a key, and the log stays as it was
    rw [if_neg (by simp [hp]), StateT.run_pure] at h
    cases LawfulMonadAttach.eq_of_canReturn_pure h
    constructor
    · exact .inl
    · rintro (hq | hq)
      · exact hq
      · exact hks q hq ▸ hp
  · rw [if_pos (by simp [hp])] at h
    exact hx log a log' h q

end AddsKeys

end Log

end NullGuard
