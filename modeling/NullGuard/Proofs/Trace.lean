import NullGuard.Proofs.Fixpoint

/-!
# Runs with effects

The transfer of an analysis runs in a monad: it asks for summaries and records hazards. What
it returns is still a function of the block and the input alone (`Returns`). A run of the
solver with such a transfer is then the pure run, preceded by the transfer's effects at the
visits the pure run makes, in order; and whatever holds of the facts of a pure run holds of
the facts of a run with effects.

* `Returns x a`: `x` always returns `a`; `Returns.bind` and `Returns.foldlM` carry it through
  programs;
* `trace`: the visits of a run with a pure transfer, each block with its input;
* `run_factor`, `solve_factor`: a run whose transfer returns what `f` gives performs the
  transfer's effects along `trace`, then returns what the pure run returns;
* `le_of_mem_solveTrace`: with a monotone transfer over a lawful domain, on any graph, every input
  visited is below the final input of its block; `mem_solveTrace`: the final input of a block is the input
  of one of its visits;
* `run_map`, `trace_map`, `solve_map`: a map between domains that carries bottom, join and
  equality, and commutes with the transfers, carries runs, traces and answers along.
-/

namespace NullGuard

/-- `x` always returns `a`: running it and then returning `a` is running it. -/
def Returns {m : Type → Type} [Functor m] {α : Type} (x : m α) (a : α) : Prop :=
  (fun _ => a) <$> x = x

namespace Returns

variable {m : Type → Type} [Monad m] [LawfulMonad m] {α β : Type}

theorem pure (a : α) : Returns (Pure.pure a : m α) a := by
  simp [Returns]

/-- The value a computation always returns may be passed on in place of the one it returned. -/
theorem bind_eq {x : m α} {a : α} (hx : Returns x a) (f : α → m β) :
    x >>= f = x >>= fun _ => f a := by
  conv_lhs => rw [← hx]
  rw [bind_map_left]

theorem bind_const {x : m α} {f : α → m β} {b : β} (h : ∀ a, Returns (f a) b) :
    Returns (x >>= f) b := by
  unfold Returns at *
  rw [map_bind]
  simp only [h]

theorem bind {x : m α} {a : α} {f : α → m β} {b : β} (hx : Returns x a) (hf : Returns (f a) b) :
    Returns (x >>= f) b := by
  rw [hx.bind_eq]
  exact bind_const fun _ => hf

omit [LawfulMonad m] in
theorem ite {c : Prop} [Decidable c] {x y : m α} {a b : α} (hx : Returns x a) (hy : Returns y b) :
    Returns (if c then x else y) (if c then a else b) := by
  split
  · exact hx
  · exact hy

theorem map {x : m α} {a : α} (hx : Returns x a) (g : α → β) : Returns (g <$> x) (g a) := by
  rw [map_eq_pure_bind]
  exact hx.bind (pure (g a))

/-- A fold of steps that each return what a pure step gives returns the pure fold. -/
theorem foldlM {γ : Type} {step : α → γ → m α} {pstep : α → γ → α}
    (h : ∀ s e, Returns (step s e) (pstep s e)) :
    ∀ (es : List γ) (s : α), Returns (es.foldlM step s) (es.foldl pstep s)
  | [], s => by simpa using pure s
  | e :: es, s => by
    rw [List.foldlM_cons, List.foldl_cons]
    exact (h s e).bind (foldlM h es (pstep s e))

end Returns

namespace Dataflow

variable {L : Type}

section Trace

variable (g : Graph) (d : Domain L) (f : BlockId → L → L) (seed : L) (order : Array BlockId)

/-- The visits of a run with the pure transfer `f`: each visited block with its input, in
order. -/
def trace : Nat → Progress L → List (BlockId × L)
  | 0, _ => []
  | fuel + 1, st =>
    match st.work with
    | [] => []
    | r :: rest => (blockAt g order r, st.input g d seed order r) ::
        trace fuel (st.visit g d f seed order r rest)

theorem trace_cons (fuel : Nat) (st : Progress L) {r : Nat} {rest : List Nat}
    (hw : st.work = r :: rest) :
    trace g d f seed order (fuel + 1) st = (blockAt g order r, st.input g d seed order r) ::
      trace g d f seed order fuel (st.visit g d f seed order r rest) := by
  simp [trace, hw]

theorem trace_nil (fuel : Nat) (st : Progress L) (hw : st.work = []) :
    trace g d f seed order fuel st = [] := by
  cases fuel <;> simp [trace, hw]

theorem run_pure_cons (fuel : Nat) (st : Progress L) {r : Nat} {rest : List Nat}
    (hw : st.work = r :: rest) :
    Id.run (run g d (fun b x => pure (f b x)) seed order (fuel + 1) st) =
      Id.run (run g d (fun b x => pure (f b x)) seed order fuel (st.visit g d f seed order r rest)) := by
  rw [run_cons g d _ seed order fuel st hw]
  rfl

variable {m : Type → Type} [Monad m] [LawfulMonad m]

/-- A run whose transfer returns what `f` gives performs the transfer at the visits of the pure
run, in order, and returns what the pure run returns. -/
theorem run_factor (t : BlockId → L → m L) (ht : ∀ b x, Returns (t b x) (f b x)) :
    ∀ (fuel : Nat) (st : Progress L), run g d t seed order fuel st =
      (trace g d f seed order fuel st).forM (fun v => (fun _ => ()) <$> t v.1 v.2) >>= fun _ =>
        pure (Id.run (run g d (fun b x => pure (f b x)) seed order fuel st))
  | fuel, st => by
    cases hw : st.work with
    | nil =>
      rw [trace_nil g d f seed order fuel st hw, run_nil g d t seed order fuel st hw,
        run_nil g d _ seed order fuel st hw]
      simp
    | cons r rest =>
      cases fuel with
      | zero =>
        rw [run_zero g d t seed order st hw, run_zero g d _ seed order st hw]
        simp [trace]
      | succ fuel =>
        rw [run_cons g d t seed order fuel st hw, trace_cons g d f seed order fuel st hw,
          run_pure_cons g d f seed order fuel st hw]
        -- the output the transfer returns is `f` of the input: the visit is the pure visit
        simp only [(ht _ _).bind_eq]
        rw [run_factor t ht fuel]
        simp [Progress.visit]

end Trace

/-- The visits of a solve with the pure transfer `f`: the run from the start over reverse
post-order. -/
def solveTrace (g : Graph) (d : Domain L) (f : BlockId → L → L) (seed : L) (budget : Nat) :
    List (BlockId × L) :=
  trace g d f seed g.reversePostorder.toArray budget (Progress.start g.reversePostorder.toArray.size)

section Solve

variable {g : Graph} {d : Domain L} {f : BlockId → L → L} {seed : L} {budget : Nat}

/-- A solve whose transfer returns what `f` gives performs the transfer along `solveTrace`, then
answers what the pure solve answers. -/
theorem solve_factor {m : Type → Type} [Monad m] [LawfulMonad m] (t : BlockId → L → m L)
    (ht : ∀ b x, Returns (t b x) (f b x)) :
    solve g d t seed budget =
      (solveTrace g d f seed budget).forM (fun v => (fun _ => ()) <$> t v.1 v.2) >>= fun _ =>
        pure (Id.run (solve g d (fun b x => pure (f b x)) seed budget)) := by
  unfold solve
  dsimp only
  rw [run_factor g d f seed _ t ht]
  simp only [bind_assoc, pure_bind, solveTrace, Progress.start]
  congr 1
  funext _
  -- both sides finish the same pure run
  split <;> rename_i h <;> simp only [Id.run_bind, h] <;> rfl

/-- The timed solve, run from a state, runs the solve within its allowance and labels its
error by the budget that ran out. -/
theorem run_solveTimed_bind {σ β : Type} {n : Type → Type} [Monad n] [LawfulMonad n]
    (t : BlockId → L → StateT σ n L) (limit : Option Binary64) (elapsed : Nat → Binary64) (s : σ)
    (k : Except (Overrun × Nat) (Solution L) × σ → n β) :
    (solveTimed g d t seed budget limit elapsed).run s >>= k =
      (solve g d t seed (allowance budget limit elapsed)).run s >>= fun p =>
        k (p.1.mapError fun i =>
          (if allowance budget limit elapsed < budget then .time else .iterations, i), p.2) := by
  simp only [solveTimed, StateT.run_map, bind_map_left]

/-- Any property of the visits that holds at every visit from states satisfying an invariant
holds along the trace. -/
theorem forall_mem_trace (order : Array BlockId) (Inv : Progress L → Prop) (P : BlockId × L → Prop)
    (hstep : ∀ st r rest, st.work = r :: rest → Inv st → Inv (st.visit g d f seed order r rest))
    (hvisit : ∀ st r rest, st.work = r :: rest → Inv st →
      P (blockAt g order r, st.input g d seed order r)) :
    ∀ (fuel : Nat) (st : Progress L), Inv st → ∀ v ∈ trace g d f seed order fuel st, P v
  | 0, _, _ => by simp [trace]
  | fuel + 1, st, hinv => by
    cases hw : st.work with
    | nil => simp [trace_nil g d f seed order _ st hw]
    | cons r rest =>
      rw [trace_cons g d f seed order fuel st hw]
      intro v hv
      rcases List.mem_cons.mp hv with rfl | hv
      · exact hvisit st r rest hw hinv
      · exact forall_mem_trace order Inv P hstep hvisit fuel _ (hstep st r rest hw hinv) v hv

theorem Progress.inAt_advance_eq_some {order : Array BlockId} {st : Progress L} {r r' : Nat}
    {rest : List Nat} {merged out x : L} (h : (st.advance g d order r rest merged out).inAt r' = some x) :
    (r' = r ∧ x = merged) ∨ st.inAt r' = some x := by
  unfold Progress.advance Progress.inAt at h
  simp only [Array.set!_eq_setIfInBounds, Array.getElem?_setIfInBounds] at h
  by_cases hr : r = r'
  · subst hr
    by_cases hlt : r < st.ins.size
    · simp only [if_true, hlt, Option.join_some, Option.some.injEq] at h
      exact .inl ⟨rfl, h.symm⟩
    · simp [hlt] at h
  · rw [if_neg hr] at h
    exact .inr h

theorem Progress.outAt_advance_eq_some {order : Array BlockId} {st : Progress L} {r r' : Nat}
    {rest : List Nat} {merged out y : L} (h : (st.advance g d order r rest merged out).outAt r' = some y) :
    (r' = r ∧ y = out) ∨ st.outAt r' = some y := by
  unfold Progress.advance Progress.outAt at h
  simp only [Array.set!_eq_setIfInBounds, Array.getElem?_setIfInBounds] at h
  by_cases hr : r = r'
  · subst hr
    by_cases hlt : r < st.outs.size
    · simp only [if_true, hlt, Option.join_some, Option.some.injEq] at h
      exact .inl ⟨rfl, h.symm⟩
    · simp [hlt] at h
  · rw [if_neg hr] at h
    exact .inr h

/-- A fact a run finds was there before it, or is the input of one of its visits. -/
theorem inAt_of_run (order : Array BlockId) :
    ∀ (fuel : Nat) (st st' : Progress L),
      Id.run (run g d (fun b x => pure (f b x)) seed order fuel st) = .ok st' →
      ∀ r x, st'.inAt r = some x →
        st.inAt r = some x ∨ (blockAt g order r, x) ∈ trace g d f seed order fuel st
  | fuel, st, st', hrun, r, x, hx => by
    cases hw : st.work with
    | nil =>
      rw [run_nil g d _ seed order fuel st hw] at hrun
      cases hrun
      exact .inl hx
    | cons r₀ rest =>
      cases fuel with
      | zero =>
        rw [run_zero g d _ seed order st hw] at hrun
        cases hrun
      | succ fuel =>
        rw [run_pure_cons g d f seed order fuel st hw] at hrun
        rw [trace_cons g d f seed order fuel st hw]
        rcases inAt_of_run order fuel _ st' hrun r x hx with h | h
        · rcases Progress.inAt_advance_eq_some h with ⟨rfl, rfl⟩ | h
          · exact .inr List.mem_cons_self
          · exact .inl h
        · exact .inr (List.mem_cons_of_mem _ h)

/-- The final input of a block is the input of one of its visits. -/
theorem mem_solveTrace {sol : Solution L}
    (hs : Id.run (solve g d (fun b x => pure (f b x)) seed budget) = .ok sol) {b : BlockId} {x : L}
    (hx : sol.inAt b = some x) : (b, x) ∈ solveTrace g d f seed budget := by
  obtain ⟨st, hrun, hin, -⟩ := solve_pure_ok hs
  rw [hin] at hx
  obtain ⟨r, hr, hxr⟩ := Option.bind_eq_some_iff.mp hx
  rcases inAt_of_run _ budget _ st hrun r x hxr with h | h
  · simp at h
  · rwa [blockAt_of_getElem? (getElem?_of_rankIn hr)] at h

/-- What holds of the solver's state on any graph: the output of a rank is the transfer of its
input, and every input found is below the input the rank would be given now. -/
structure Grows (g : Graph) (d : Domain L) (f : BlockId → L → L) (seed : L) (order : Array BlockId)
    (st : Progress L) : Prop where
  ins_size : st.ins.size = order.size
  outs_size : st.outs.size = order.size
  work_lt : ∀ r ∈ st.work, r < order.size
  out_eq : ∀ r y, st.outAt r = some y → ∃ x, st.inAt r = some x ∧ y = f (blockAt g order r) x
  in_le : ∀ r x, st.inAt r = some x → d.le x (st.input g d seed order r)

/-- Inputs grow with the outputs they join. -/
theorem Progress.input_le_input (hd : d.Lawful) {order : Array BlockId} {st st' : Progress L}
    (hout : ∀ p y, st.outOf order p = some y → ∃ y', st'.outOf order p = some y' ∧ d.le y y')
    (r : Nat) : d.le (st.input g d seed order r) (st'.input g d seed order r) := by
  unfold Progress.input Domain.joinAll
  rw [Progress.incoming_eq, Progress.incoming_eq, List.foldl_append, List.foldl_append]
  exact hd.foldl_filterMap_le _ _ _ _ _ (hd.le_refl _) fun p _ y hy => hout p y hy

theorem grows_start {order : Array BlockId} (hR : Ranking g order) :
    Grows g d f seed order (Progress.start order.size) where
  ins_size := by simp [Progress.start]
  outs_size := by simp [Progress.start]
  work_lt := (@sound_start L g d f seed order hR).work_lt
  out_eq r y hy := by simp at hy
  in_le r x hx := by simp at hx

theorem Grows.visit (hd : d.Lawful) (hmono : d.Monotone f) {order : Array BlockId} {st : Progress L}
    {r : Nat} {rest : List Nat} (hs : Grows g d f seed order st) (hw : st.work = r :: rest) :
    Grows g d f seed order (st.visit g d f seed order r rest) := by
  have hr : r < order.size := hs.work_lt r (by simp [hw])
  have hin : ∀ r', (st.visit g d f seed order r rest).inAt r' =
      if r' = r then some (st.input g d seed order r) else st.inAt r' :=
    Progress.inAt_advance (by rw [hs.ins_size]; exact hr)
  have hout : ∀ r', (st.visit g d f seed order r rest).outAt r' =
      if r' = r then some (f (blockAt g order r) (st.input g d seed order r)) else st.outAt r' :=
    Progress.outAt_advance (by rw [hs.outs_size]; exact hr)
  -- the visited rank's output rises, since its input does and the transfer is monotone
  have hgrow : ∀ r' y, st.outAt r' = some y →
      ∃ y', (st.visit g d f seed order r rest).outAt r' = some y' ∧ d.le y y' := by
    intro r' y hy
    rw [hout]
    by_cases h : r' = r
    · subst h
      obtain ⟨x, hx, rfl⟩ := hs.out_eq r' y hy
      exact ⟨_, if_pos rfl, hmono _ _ _ (hs.in_le r' x hx)⟩
    · exact ⟨y, by rw [if_neg h, hy], hd.le_refl y⟩
  have hinput : ∀ r', d.le (st.input g d seed order r') ((st.visit g d f seed order r rest).input g d seed order r') :=
    Progress.input_le_input hd fun p y hy => by
      unfold Progress.outOf at hy ⊢
      obtain ⟨rp, hrp, hy⟩ := Option.bind_eq_some_iff.mp hy
      rw [hrp, Option.bind_some]
      exact hgrow rp y hy
  refine ⟨?_, ?_, ?_, ?_, ?_⟩
  · simpa [Progress.visit] using hs.ins_size
  · simpa [Progress.visit] using hs.outs_size
  · exact fun x hx => Progress.lt_of_mem_work_advance hs.work_lt hw hx
  · intro r' y hy
    rw [hout] at hy
    rw [hin]
    by_cases h : r' = r
    · rw [if_pos h] at hy ⊢
      cases hy
      exact ⟨_, rfl, by rw [h]⟩
    · rw [if_neg h] at hy ⊢
      exact hs.out_eq r' y hy
  · intro r' x hx
    rw [hin] at hx
    by_cases h : r' = r
    · rw [if_pos h] at hx
      cases hx
      rw [h]
      exact hinput r
    · rw [if_neg h] at hx
      exact hd.le_trans (hs.in_le r' x hx) (hinput r')

/-- Along a run with a monotone transfer, the input found for a rank only rises. -/
theorem le_inAt_of_run (hd : d.Lawful) (hmono : d.Monotone f) (order : Array BlockId) :
    ∀ (fuel : Nat) (st st' : Progress L),
      Id.run (run g d (fun b x => pure (f b x)) seed order fuel st) = .ok st' → Grows g d f seed order st →
      ∀ r x, st.inAt r = some x → ∃ y, st'.inAt r = some y ∧ d.le x y
  | fuel, st, st', hrun, hs, r, x, hx => by
    cases hw : st.work with
    | nil =>
      rw [run_nil g d _ seed order fuel st hw] at hrun
      cases hrun
      exact ⟨x, hx, hd.le_refl x⟩
    | cons r₀ rest =>
      cases fuel with
      | zero =>
        rw [run_zero g d _ seed order st hw] at hrun
        cases hrun
      | succ fuel =>
        rw [run_pure_cons g d f seed order fuel st hw] at hrun
        have hr₀ : r₀ < st.ins.size := by rw [hs.ins_size]; exact hs.work_lt r₀ (by simp [hw])
        -- the visit raises the input of its own rank and keeps the others
        have hvisit : ∃ x', (st.visit g d f seed order r₀ rest).inAt r = some x' ∧ d.le x x' := by
          rw [Progress.visit, Progress.inAt_advance hr₀]
          by_cases h : r = r₀
          · subst h
            exact ⟨_, if_pos rfl, hs.in_le r x hx⟩
          · exact ⟨x, by rw [if_neg h, hx], hd.le_refl x⟩
        obtain ⟨x', hx', hle⟩ := hvisit
        obtain ⟨y, hy, hle'⟩ := le_inAt_of_run hd hmono order fuel _ st' hrun (hs.visit hd hmono hw) r x' hx'
        exact ⟨y, hy, hd.le_trans hle hle'⟩

/-- With a monotone transfer over a lawful domain, on any graph, every input visited is below
the final input of its block: inputs and outputs only rise along the run. -/
theorem le_of_mem_solveTrace (hd : d.Lawful) (hmono : d.Monotone f) {sol : Solution L}
    (hs : Id.run (solve g d (fun b x => pure (f b x)) seed budget) = .ok sol) :
    ∀ v ∈ solveTrace g d f seed budget, ∃ x, sol.inAt v.1 = some x ∧ d.le v.2 x := by
  obtain ⟨st, hrun, hin, -⟩ := solve_pure_ok hs
  have hR := ranking_reversePostorder g
  let order := g.reversePostorder.toArray
  -- a visit's input is the input its rank is found with right after it, which only rises
  have hvisits := forall_mem_trace order
    (fun st' => Grows g d f seed order st' ∧
      ∃ fuel, Id.run (run g d (fun b x => pure (f b x)) seed order fuel st') = .ok st)
    (fun v => ∃ r < order.size, blockAt g order r = v.1 ∧ ∃ y, st.inAt r = some y ∧ d.le v.2 y)
    (fun st' r rest hw ⟨hgrow, fuel, hrun'⟩ => by
      refine ⟨hgrow.visit hd hmono hw, ?_⟩
      cases fuel with
      | zero => rw [run_zero g d _ seed order st' hw] at hrun'; cases hrun'
      | succ fuel => exact ⟨fuel, by rwa [run_pure_cons g d f seed order fuel st' hw] at hrun'⟩)
    (fun st' r rest hw ⟨hgrow, fuel, hrun'⟩ => by
      have hr : r < order.size := hgrow.work_lt r (by simp [hw])
      cases fuel with
      | zero => rw [run_zero g d _ seed order st' hw] at hrun'; cases hrun'
      | succ fuel =>
        rw [run_pure_cons g d f seed order fuel st' hw] at hrun'
        have hx : (st'.visit g d f seed order r rest).inAt r = some (st'.input g d seed order r) := by
          rw [Progress.visit, Progress.inAt_advance (by rw [hgrow.ins_size]; exact hr), if_pos rfl]
        exact ⟨r, hr, rfl, le_inAt_of_run hd hmono order fuel _ st hrun' (hgrow.visit hd hmono hw) r _ hx⟩)
    budget _ ⟨grows_start hR, budget, hrun⟩
  intro v hv
  obtain ⟨r, hr, hb, y, hy, hle⟩ := hvisits v hv
  obtain ⟨-, -, hrank⟩ := blockAt_spec hR hr
  refine ⟨y, ?_, hle⟩
  rw [hin, ← hb]
  unfold Progress.inOf
  rw [hrank, Option.bind_some]
  exact hy

end Solve

/-! ### Maps between domains -/

section Map

variable {L' : Type}

/-- A map between domains that carries the bottom, joins and the equality. -/
structure Domain.Hom (d' : Domain L') (d : Domain L) (φ : L' → L) : Prop where
  bottom : φ d'.bottom = d.bottom
  join : ∀ a b, φ (d'.join a b) = d.join (φ a) (φ b)
  same : ∀ a b, d.same (φ a) (φ b) = d'.same a b

/-- The state with every fact sent through `φ`. -/
def Progress.map (φ : L' → L) (st : Progress L') : Progress L :=
  { work := st.work, ins := st.ins.map (Option.map φ), outs := st.outs.map (Option.map φ),
    iterations := st.iterations }

/-- The answer with every fact sent through `φ`. -/
def Solution.map (φ : L' → L) (sol : Solution L') : Solution L :=
  { order := sol.order, ordinals := sol.ordinals, exitRank := sol.exitRank,
    ins := sol.ins.map (Option.map φ), outs := sol.outs.map (Option.map φ),
    iterations := sol.iterations }

variable {g : Graph} {d' : Domain L'} {d : Domain L} {φ : L' → L} {f' : BlockId → L' → L'}
  {f : BlockId → L → L} {order : Array BlockId}

theorem Domain.Hom.foldl_join (hφ : d'.Hom d φ) :
    ∀ (xs : List L') (a : L'), (xs.map φ).foldl d.join (φ a) = φ (xs.foldl d'.join a)
  | [], _ => rfl
  | x :: xs, a => by
    rw [List.map_cons, List.foldl_cons, List.foldl_cons, ← hφ.join, hφ.foldl_join xs]

theorem getElem?_map_join (facts : Array (Option L')) (i : Nat) :
    ((facts.map (Option.map φ))[i]?).join = (facts[i]?.join).map φ := by
  rw [Array.getElem?_map]
  cases facts[i]? with
  | none => rfl
  | some o => cases o <;> rfl

theorem Progress.input_map (hφ : d'.Hom d φ) (seed : L') (st : Progress L') (r : Nat) :
    (st.map φ).input g d (φ seed) order r = φ (st.input g d' seed order r) := by
  have hinc : incoming g (φ seed) order (st.map φ).outs (blockAt g order r) =
      (incoming g seed order st.outs (blockAt g order r)).map φ := by
    unfold incoming
    simp only [Progress.map, getElem?_map_join]
    split <;> simp only [List.map_cons, List.map_filterMap, Option.map_bind] <;> rfl
  unfold Progress.input Domain.joinAll
  rw [hinc, ← hφ.bottom, hφ.foldl_join]

theorem Progress.advance_map (hφ : d'.Hom d φ) (st : Progress L') (r : Nat) (rest : List Nat)
    (merged out : L') :
    (st.map φ).advance g d order r rest (φ merged) (φ out) =
      (st.advance g d' order r rest merged out).map φ := by
  have hchanged : (st.map φ).changed d r (φ out) = st.changed d' r out := by
    unfold Progress.changed
    simp only [Progress.map, getElem?_map_join]
    cases st.outs[r]?.join with
    | none => rfl
    | some old => simp [hφ.same]
  unfold Progress.advance
  rw [hchanged]
  simp [Progress.map, Array.set!_eq_setIfInBounds, Array.map_setIfInBounds]

variable (hφ : d'.Hom d φ) (hf : ∀ b x, f b (φ x) = φ (f' b x)) (seed : L')
include hφ hf

theorem Progress.visit_map (st : Progress L') (r : Nat) (rest : List Nat) :
    (st.map φ).visit g d f (φ seed) order r rest = (st.visit g d' f' seed order r rest).map φ := by
  unfold Progress.visit
  rw [Progress.input_map hφ, hf, Progress.advance_map hφ]

/-- A map that carries the domain's operations and commutes with the transfers carries runs. -/
theorem run_map : ∀ (fuel : Nat) (st : Progress L'),
    Id.run (run g d (fun b x => pure (f b x)) (φ seed) order fuel (st.map φ)) =
      (Id.run (run g d' (fun b x => pure (f' b x)) seed order fuel st)).map (Progress.map φ)
  | fuel, st => by
    cases hw : st.work with
    | nil =>
      rw [run_nil g d _ _ order fuel (st.map φ) hw, run_nil g d' _ seed order fuel st hw]
      rfl
    | cons r rest =>
      cases fuel with
      | zero =>
        rw [run_zero g d _ _ order (st.map φ) hw, run_zero g d' _ seed order st hw]
        rfl
      | succ fuel =>
        rw [run_pure_cons g d f _ order fuel (st.map φ) hw, run_pure_cons g d' f' seed order fuel st hw,
          Progress.visit_map hφ hf, run_map fuel]

theorem trace_map : ∀ (fuel : Nat) (st : Progress L'),
    trace g d f (φ seed) order fuel (st.map φ) =
      (trace g d' f' seed order fuel st).map fun v => (v.1, φ v.2)
  | 0, _ => rfl
  | fuel + 1, st => by
    cases hw : st.work with
    | nil => rw [trace_nil g d f _ order _ (st.map φ) hw, trace_nil g d' f' seed order _ st hw]; rfl
    | cons r rest =>
      rw [trace_cons g d f _ order fuel (st.map φ) hw, trace_cons g d' f' seed order fuel st hw,
        Progress.visit_map hφ hf, trace_map fuel, Progress.input_map hφ]
      rfl

omit hφ hf in
theorem start_map (n : Nat) : (Progress.start n : Progress L) = (Progress.start n).map φ := by
  simp [Progress.start, Progress.map, Array.map_replicate]

theorem solveTrace_map (budget : Nat) :
    solveTrace g d f (φ seed) budget = (solveTrace g d' f' seed budget).map fun v => (v.1, φ v.2) := by
  unfold solveTrace
  rw [start_map, trace_map hφ hf]

theorem solve_map (budget : Nat) :
    Id.run (solve g d (fun b x => pure (f b x)) (φ seed) budget) =
      (Id.run (solve g d' (fun b x => pure (f' b x)) seed budget)).map (Solution.map φ) := by
  rw [solve_pure_eq, solve_pure_eq, start_map, run_map hφ hf]
  cases Id.run (run g d' (fun b x => pure (f' b x)) seed g.reversePostorder.toArray budget
    (Progress.start g.reversePostorder.toArray.size)) <;> rfl

omit hφ hf in
theorem Solution.inAt_map (sol : Solution L') (b : BlockId) : (sol.map φ).inAt b = (sol.inAt b).map φ := by
  unfold Solution.inAt Solution.map
  cases rankIn sol.order b with
  | none => rfl
  | some r => exact getElem?_map_join sol.ins r

end Map

end Dataflow

end NullGuard
