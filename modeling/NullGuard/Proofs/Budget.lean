import NullGuard.Proofs.Trace

/-!
# The budget decides whether the solver answers, never what it answers

Each visit spends one unit of fuel and counts one iteration. A run that empties its worklist
within its fuel ends in the same state with any fuel that covers the visits it made
(`run_ok_of_covers`), and a run that runs out of fuel has made exactly as many visits as it had
fuel (`run_error_eq`).

The solver without a budget answers `sol` when some budget lets it answer `sol`
(`Dataflow.Unbounded`); that answer is unique (`Unbounded.unique`). With a budget of `n` the
solver gives up, reporting `n` visits, exactly when the solver without a budget makes more than
`n` visits or never ends, and otherwise it gives the unbounded answer (`solve_budget`).

Under a time limit the solver reads the clock before each visit and gives up on time at the
first reading past the limit; `Dataflow.allowance` is the number of visits it makes before that
reading, at most the budget. It gives up on time after `k` visits exactly when `k` is within the
budget, the reading before visit `k + 1` is the first past the limit, and the solver without a
budget does not answer within `k` visits; it gives up on visits after the whole budget when
every reading is within the limit and the solver without a budget does not answer within it
(`solveTimed_budget`).
-/

namespace NullGuard.Dataflow

variable {L : Type}

section Run

variable (g : Graph) (d : Domain L) (f : BlockId → L → L) (seed : L) (order : Array BlockId)

@[simp] theorem Progress.iterations_visit (st : Progress L) (r : Nat) (rest : List Nat) :
    (st.visit g d f seed order r rest).iterations = st.iterations + 1 := rfl

/-- A run that runs out of fuel has made one visit per unit of fuel. -/
theorem run_error_eq : ∀ (fuel : Nat) (st : Progress L) (k : Nat),
    Id.run (run g d (fun b x => pure (f b x)) seed order fuel st) = .error k → k = st.iterations + fuel
  | fuel, st, k, hrun => by
    cases hw : st.work with
    | nil =>
      rw [run_nil g d _ seed order fuel st hw] at hrun
      cases hrun
    | cons r rest =>
      cases fuel with
      | zero =>
        rw [run_zero g d _ seed order st hw] at hrun
        cases hrun
        rfl
      | succ fuel =>
        rw [run_pure_cons g d f seed order fuel st hw] at hrun
        rw [run_error_eq fuel _ k hrun, Progress.iterations_visit]
        omega

/-- A run that ends made at most as many visits as it had fuel, and ends in the same state with
any fuel that covers the visits it made. -/
theorem run_ok_of_covers : ∀ (fuel : Nat) (st st' : Progress L),
    Id.run (run g d (fun b x => pure (f b x)) seed order fuel st) = .ok st' →
      st.iterations ≤ st'.iterations ∧ st'.iterations ≤ st.iterations + fuel ∧
      ∀ fuel', st'.iterations ≤ st.iterations + fuel' →
        Id.run (run g d (fun b x => pure (f b x)) seed order fuel' st) = .ok st'
  | fuel, st, st', hrun => by
    cases hw : st.work with
    | nil =>
      rw [run_nil g d _ seed order fuel st hw] at hrun
      cases hrun
      exact ⟨Nat.le_refl _, Nat.le_add_right _ _, fun fuel' _ => by rw [run_nil g d _ seed order fuel' st hw]; rfl⟩
    | cons r rest =>
      cases fuel with
      | zero =>
        rw [run_zero g d _ seed order st hw] at hrun
        cases hrun
      | succ fuel =>
        rw [run_pure_cons g d f seed order fuel st hw] at hrun
        obtain ⟨hlo, hhi, hcov⟩ := run_ok_of_covers fuel _ st' hrun
        rw [Progress.iterations_visit] at hlo hhi hcov
        refine ⟨by omega, by omega, fun fuel' hfuel' => ?_⟩
        -- the run still has a visit to make, so the covering fuel is positive
        obtain ⟨fuel'', rfl⟩ : ∃ fuel'', fuel' = fuel'' + 1 := ⟨fuel' - 1, by omega⟩
        rw [run_pure_cons g d f seed order fuel'' st hw]
        exact hcov fuel'' (by omega)

end Run

section Solve

variable {g : Graph} {d : Domain L} {f : BlockId → L → L} {seed : L}

/-- The solver without a budget answers `sol`: some budget lets it answer `sol`. -/
def Unbounded (g : Graph) (d : Domain L) (f : BlockId → L → L) (seed : L) (sol : Solution L) : Prop :=
  ∃ budget, Id.run (solve g d (fun b x => pure (f b x)) seed budget) = .ok sol

@[simp] theorem iterations_start (n : Nat) : (Progress.start n : Progress L).iterations = 0 := rfl

theorem solve_ok_iff {budget : Nat} {sol : Solution L} :
    Id.run (solve g d (fun b x => pure (f b x)) seed budget) = .ok sol ↔
      ∃ st, Id.run (run g d (fun b x => pure (f b x)) seed g.reversePostorder.toArray budget
        (Progress.start g.reversePostorder.toArray.size)) = .ok st ∧ finish g (.ok st) = .ok sol := by
  rw [solve_pure_eq]
  cases Id.run (run g d (fun b x => pure (f b x)) seed g.reversePostorder.toArray budget
    (Progress.start g.reversePostorder.toArray.size)) with
  | error k => simp [finish]
  | ok st => simp

theorem solve_error_iff {budget k : Nat} :
    Id.run (solve g d (fun b x => pure (f b x)) seed budget) = .error k ↔
      Id.run (run g d (fun b x => pure (f b x)) seed g.reversePostorder.toArray budget
        (Progress.start g.reversePostorder.toArray.size)) = .error k := by
  rw [solve_pure_eq]
  cases Id.run (run g d (fun b x => pure (f b x)) seed g.reversePostorder.toArray budget
    (Progress.start g.reversePostorder.toArray.size)) with
  | error k' => simp [finish]
  | ok st => simp [finish]

theorem iterations_finish (st : Progress L) {sol : Solution L} (h : finish g (.ok st) = .ok sol) :
    sol.iterations = st.iterations := by
  cases h
  rfl

/-- A solver answering `sol` with a budget answers `sol` with every budget that covers its
visits. -/
theorem solve_ok_of_covers {budget : Nat} {sol : Solution L}
    (h : Id.run (solve g d (fun b x => pure (f b x)) seed budget) = .ok sol) :
    sol.iterations ≤ budget ∧
      ∀ n, sol.iterations ≤ n → Id.run (solve g d (fun b x => pure (f b x)) seed n) = .ok sol := by
  obtain ⟨st, hrun, hfin⟩ := solve_ok_iff.mp h
  obtain ⟨-, hhi, hcov⟩ := run_ok_of_covers g d f seed _ budget _ st hrun
  have hit : sol.iterations = st.iterations := iterations_finish st hfin
  rw [iterations_start] at hhi hcov
  refine ⟨by omega, fun n hn => solve_ok_iff.mpr ⟨st, hcov n (by omega), hfin⟩⟩

/-- The solver without a budget has at most one answer. -/
theorem Unbounded.unique {sol sol' : Solution L} (h : Unbounded g d f seed sol)
    (h' : Unbounded g d f seed sol') : sol = sol' := by
  obtain ⟨N, hN⟩ := h
  obtain ⟨N', hN'⟩ := h'
  -- both answers are given with a budget that covers the two runs
  have hcov := (solve_ok_of_covers hN).2 (max N N')
    (Nat.le_trans (solve_ok_of_covers hN).1 (le_max_left _ _))
  have hcov' := (solve_ok_of_covers hN').2 (max N N')
    (Nat.le_trans (solve_ok_of_covers hN').1 (le_max_right _ _))
  rw [hcov] at hcov'
  exact Except.ok.inj hcov'

/-- With a budget of `n` the solver gives up, reporting `n` visits, exactly when the solver
without a budget does not answer within `n` visits. -/
theorem solve_error_iff_unbounded (n k : Nat) :
    Id.run (solve g d (fun b x => pure (f b x)) seed n) = .error k ↔
      k = n ∧ ∀ sol, Unbounded g d f seed sol → n < sol.iterations := by
  constructor
  · intro h
    -- `n` visits made, and an answer within `n` visits would have been given
    have hk : k = n := by simpa using run_error_eq g d f seed _ n _ k (solve_error_iff.mp h)
    refine ⟨hk, fun sol ⟨N, hN⟩ => Nat.lt_of_not_le fun hle => ?_⟩
    rw [(solve_ok_of_covers hN).2 n hle] at h
    cases h
  · rintro ⟨hk, hmore⟩
    -- an answer with `n` would be an unbounded answer within `n` visits
    cases hs : Id.run (solve g d (fun b x => pure (f b x)) seed n) with
    | error k' =>
      have hk' : k' = n := by simpa using run_error_eq g d f seed _ n _ k' (solve_error_iff.mp hs)
      rw [hk', hk]
    | ok sol =>
      have := hmore sol ⟨n, hs⟩
      have := (solve_ok_of_covers hs).1
      omega

/-- Otherwise the solver answers what the solver without a budget answers. -/
theorem solve_ok_iff_unbounded (n : Nat) (sol : Solution L) :
    Id.run (solve g d (fun b x => pure (f b x)) seed n) = .ok sol ↔
      Unbounded g d f seed sol ∧ sol.iterations ≤ n := by
  constructor
  · intro h
    exact ⟨⟨n, h⟩, (solve_ok_of_covers h).1⟩
  · rintro ⟨⟨N, hN⟩, hle⟩
    exact (solve_ok_of_covers hN).2 n hle

/-- With a budget of `n`, the solver gives up reporting `n` visits exactly when the solver
without a budget does not answer within `n` visits, and otherwise answers what the solver
without a budget answers; that answer is unique. -/
theorem solve_budget (g : Graph) (d : Domain L) (f : BlockId → L → L) (seed : L) (n : Nat) :
    (∀ k, Id.run (solve g d (fun b x => pure (f b x)) seed n) = .error k ↔
      k = n ∧ ∀ sol, Unbounded g d f seed sol → n < sol.iterations) ∧
    (∀ sol, Id.run (solve g d (fun b x => pure (f b x)) seed n) = .ok sol ↔
      Unbounded g d f seed sol ∧ sol.iterations ≤ n) ∧
    (∀ sol sol', Unbounded g d f seed sol → Unbounded g d f seed sol' → sol = sol') :=
  ⟨solve_error_iff_unbounded n, solve_ok_iff_unbounded n, fun _ _ h h' => h.unique h'⟩

end Solve

/-! ### The time limit -/

section Time

/-- `firstLate` stops at the first late visit of its range, or at its end. -/
theorem firstLate_spec (late : Nat → Bool) : ∀ n k : Nat,
    k ≤ firstLate late n k ∧ firstLate late n k ≤ k + n ∧
      (∀ j, k ≤ j → j < firstLate late n k → late j = false) ∧
      (firstLate late n k < k + n → late (firstLate late n k) = true)
  | 0, k => by
    rw [firstLate]
    exact ⟨Nat.le_refl k, by omega, fun j hj hjk => by omega, fun h => by omega⟩
  | n + 1, k => by
    by_cases h : late k = true
    · rw [firstLate, if_pos h]
      exact ⟨Nat.le_refl k, by omega, fun j hj hjk => by omega, fun _ => h⟩
    · obtain ⟨hlo, hhi, hbefore, hat⟩ := firstLate_spec late n (k + 1)
      rw [firstLate, if_neg h]
      refine ⟨by omega, by omega, fun j hj hjr => ?_, fun hr => hat (by omega)⟩
      -- the visit `k` itself is on time; the later ones are those of the rest of the range
      rcases Nat.eq_or_lt_of_le hj with rfl | hj'
      · simpa using h
      · exact hbefore j hj' hjr

variable {budget : Nat} {limit : Option Binary64} {elapsed : Nat → Binary64}

/-- The allowance is at most the budget; the clock is within the limit before every visit it
allows, and past it before the next one when the allowance falls short of the budget. -/
theorem allowance_spec :
    allowance budget limit elapsed ≤ budget ∧
      (∀ k < allowance budget limit elapsed, (limit.any fun s => s.lt (elapsed k)) = false) ∧
      (allowance budget limit elapsed < budget →
        (limit.any fun s => s.lt (elapsed (allowance budget limit elapsed))) = true) := by
  cases limit with
  | none => simp [allowance]
  | some s =>
    obtain ⟨-, hhi, hbefore, hat⟩ := firstLate_spec (fun k => s.lt (elapsed k)) budget 0
    simp only [allowance, Option.any_some]
    exact ⟨by omega, fun k hk => hbefore k (Nat.zero_le k) hk, fun h => hat (by omega)⟩

/-- The allowance is the first visit within the budget before which the clock is past the
limit, or the whole budget. -/
theorem allowance_eq_iff {k : Nat} :
    allowance budget limit elapsed = k ↔
      k ≤ budget ∧ (∀ j < k, (limit.any fun s => s.lt (elapsed j)) = false) ∧
        (k < budget → (limit.any fun s => s.lt (elapsed k)) = true) := by
  obtain ⟨hle, hbefore, hat⟩ := @allowance_spec budget limit elapsed
  constructor
  · rintro rfl
    exact ⟨hle, hbefore, hat⟩
  · rintro ⟨hk, hkbefore, hkat⟩
    -- a first late visit is first from both sides
    rcases Nat.lt_trichotomy (allowance budget limit elapsed) k with hlt | heq | hgt
    · have := hkbefore _ hlt
      rw [hat (by omega)] at this
      cases this
    · exact heq
    · have := hbefore _ hgt
      rw [hkat (by omega)] at this
      cases this

variable {g : Graph} {d : Domain L} {f : BlockId → L → L} {seed : L}

/-- The timed solve is the solve within the allowance, its error labelled. -/
theorem solveTimed_pure (n : Nat) :
    Id.run (solveTimed g d (fun b x => pure (f b x)) seed n limit elapsed) =
      (Id.run (solve g d (fun b x => pure (f b x)) seed (allowance n limit elapsed))).mapError
        fun i => (if allowance n limit elapsed < n then .time else .iterations, i) :=
  rfl

/-- The timed solve gives up exactly when the solve within the allowance does, labelled by whether
the allowance fell short of the budget. -/
theorem solveTimed_eq_error_iff (n : Nat) (o : Overrun) (k : Nat) :
    Id.run (solveTimed g d (fun b x => pure (f b x)) seed n limit elapsed) = .error (o, k) ↔
      Id.run (solve g d (fun b x => pure (f b x)) seed (allowance n limit elapsed)) = .error k ∧
        (if allowance n limit elapsed < n then Overrun.time else .iterations) = o := by
  rw [solveTimed_pure]
  cases Id.run (solve g d (fun b x => pure (f b x)) seed (allowance n limit elapsed)) <;>
    simp [Except.mapError, and_comm, eq_comm]

/-- Under a time limit the solver answers as without one, within its allowance, and names the
budget it ran out of. -/
theorem solveTimed_budget (n : Nat) :
    (∀ sol, Id.run (solveTimed g d (fun b x => pure (f b x)) seed n limit elapsed) = .ok sol ↔
      Unbounded g d f seed sol ∧ sol.iterations ≤ allowance n limit elapsed) ∧
    (∀ k, Id.run (solveTimed g d (fun b x => pure (f b x)) seed n limit elapsed) = .error (.time, k) ↔
      k < n ∧ (limit.any fun s => s.lt (elapsed k)) = true ∧
        (∀ j < k, (limit.any fun s => s.lt (elapsed j)) = false) ∧
        ∀ sol, Unbounded g d f seed sol → k < sol.iterations) ∧
    (∀ k, Id.run (solveTimed g d (fun b x => pure (f b x)) seed n limit elapsed) = .error (.iterations, k) ↔
      k = n ∧ (∀ j < n, (limit.any fun s => s.lt (elapsed j)) = false) ∧
        ∀ sol, Unbounded g d f seed sol → n < sol.iterations) := by
  obtain ⟨hle, hbefore, hat⟩ := @allowance_spec n limit elapsed
  refine ⟨fun sol => ?_, fun k => ?_, fun k => ?_⟩
  · rw [solveTimed_pure, ← solve_ok_iff_unbounded]
    cases Id.run (solve g d (fun b x => pure (f b x)) seed (allowance n limit elapsed)) <;>
      simp [Except.mapError]
  · -- a time label: the allowance fell short of the budget, and it is the visits made
    rw [solveTimed_eq_error_iff, solve_error_iff_unbounded]
    constructor
    · rintro ⟨⟨rfl, hmore⟩, hlab⟩
      have hshort : allowance n limit elapsed < n := by
        by_contra hn
        rw [if_neg hn] at hlab
        cases hlab
      exact ⟨hshort, hat hshort, hbefore, hmore⟩
    · rintro ⟨hk, hlate, hbefore', hmore⟩
      have ha : allowance n limit elapsed = k := allowance_eq_iff.mpr ⟨hk.le, hbefore', fun _ => hlate⟩
      rw [ha]
      exact ⟨⟨rfl, hmore⟩, if_pos hk⟩
  · -- an iteration label: the allowance is the whole budget
    rw [solveTimed_eq_error_iff, solve_error_iff_unbounded]
    constructor
    · rintro ⟨⟨rfl, hmore⟩, hlab⟩
      have hfull : allowance n limit elapsed = n := by
        by_contra hne
        rw [if_pos (by omega)] at hlab
        cases hlab
      rw [hfull] at hbefore hmore ⊢
      exact ⟨rfl, hbefore, hmore⟩
    · rintro ⟨rfl, hbefore', hmore⟩
      have ha : allowance k limit elapsed = k :=
        allowance_eq_iff.mpr ⟨le_rfl, hbefore', fun h => absurd h (lt_irrefl k)⟩
      rw [ha]
      exact ⟨⟨rfl, hmore⟩, if_neg (lt_irrefl k)⟩

end Time

end NullGuard.Dataflow
