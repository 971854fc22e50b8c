import NullGuard.Summary.Request

/-!
# The summary cache is a first-writer-wins memo table

Requests to a `SummaryCache` nest to any depth: the computation a request runs on a miss may
make requests of its own, for any key, its own among them, may catch their failures and go on,
and may fail. A scripted `Request` describes such a run.

How one request is served (`SummaryCache.run_getOrCompute_hit`, `_cycle`, `_miss`): a stored
key answers its value and counts a hit; a key in progress answers the fallback and counts a
cycle fallback; any other key is claimed and counts a miss, and its computation runs once. What
the computation returns is answered, and stored unless it is transient; a failure is passed on;
either way the claim is released.

What serving does to the cache, over every script and from every cache (`Request.run_serves`):

* a stored result is never replaced nor removed;
* the keys in progress come back as they were, so an outermost request leaves none;
* a key in progress that has no stored result still has none: a computation cannot store its
  own key, since a request for it meets the claim;
* every request counts exactly one hit, miss or cycle fallback (`Request.served_run`).

`Request.run_firstWriterWins` puts these together for one request.
-/

namespace NullGuard

/-! ### Running computations that can fail -/

section Run

variable {ε σ β γ : Type}

theorem run_get_bind (f : σ → ExceptT ε (StateM σ) β) (s : σ) :
    ((get : ExceptT ε (StateM σ) σ) >>= f).run.run s = (f s).run.run s :=
  rfl

theorem run_bind_eq (x : ExceptT ε (StateM σ) β) (f : β → ExceptT ε (StateM σ) γ) (s : σ) :
    (x >>= f).run.run s = match x.run.run s with
      | (.ok a, s') => (f a).run.run s'
      | (.error e, s') => (.error e, s') := by
  unfold ExceptT.run StateT.run
  simp only [bind, ExceptT.bind, ExceptT.mk, StateT.bind, ExceptT.bindCont]
  cases x s with
  | mk result next => cases result <;> rfl

theorem run_tryCatch_eq (x : ExceptT ε (StateM σ) β) (h : ε → ExceptT ε (StateM σ) β) (s : σ) :
    (tryCatch x h).run.run s = match x.run.run s with
      | (.ok a, s') => (.ok a, s')
      | (.error e, s') => (h e).run.run s' := by
  show (ExceptT.tryCatch x h).run.run s = _
  unfold ExceptT.tryCatch ExceptT.run StateT.run
  simp only [bind, ExceptT.mk, StateT.bind]
  cases x s with
  | mk result next => cases result <;> rfl

end Run

namespace SummaryCache

/-! ### One request -/

section Request

variable {κ α ε : Type} [DecidableEq κ] (c : SummaryCache κ α) (k : κ) (fb : α)
  (compute : ExceptT ε (StateM (SummaryCache κ α)) (Computed α))

/-- A stored key answers its value and counts a hit. -/
theorem run_getOrCompute_hit {v : α} (h : c.get? k = some v) :
    (getOrCompute get set k fb compute).run.run c = (.ok v, { c with hits := c.hits + 1 }) := by
  unfold getOrCompute
  rw [run_get_bind]
  simp only [lookup, h]
  rfl

/-- A key in progress answers the fallback and counts a cycle fallback. -/
theorem run_getOrCompute_cycle (h : c.get? k = none) (hc : k ∈ c.claims) :
    (getOrCompute get set k fb compute).run.run c = (.ok fb, { c with cycleDefaults := c.cycleDefaults + 1 }) := by
  unfold getOrCompute
  rw [run_get_bind]
  simp only [lookup, h, List.contains_iff_mem.mpr hc, if_true]
  rfl

/-- Any other key is claimed and counts a miss; the computation runs once, and the key is
settled with what it returns, or released when it fails. -/
theorem run_getOrCompute_miss (h : c.get? k = none) (hc : k ∉ c.claims) :
    (getOrCompute get set k fb compute).run.run c =
      match compute.run.run { c with claims := k :: c.claims, misses := c.misses + 1 } with
      | (.ok r, c₂) => (.ok r.value, c₂.settle k r)
      | (.error e, c₂) => (.error e, c₂.release k) := by
  unfold getOrCompute
  rw [run_get_bind]
  have hc' : c.claims.contains k = false := by simpa using hc
  simp only [lookup, h, hc', Bool.false_eq_true, if_false]
  rw [run_bind_eq]
  show (tryCatch compute _ >>= _).run.run _ = _
  rw [run_bind_eq, run_tryCatch_eq]
  rcases compute.run.run { c with claims := k :: c.claims, misses := c.misses + 1 } with ⟨out, c₂⟩
  cases out <;> rfl

end Request

/-! ### What serving does to a cache -/

section Serving

variable {κ α : Type} [DecidableEq κ]

/-- The requests a cache has counted: hits, misses and cycle fallbacks. -/
def served (c : SummaryCache κ α) : Nat := c.hits + c.misses + c.cycleDefaults

@[simp] theorem served_settle (c : SummaryCache κ α) (k : κ) (r : Computed α) :
    (c.settle k r).served = c.served := by
  cases r <;> rfl

@[simp] theorem served_release (c : SummaryCache κ α) (k : κ) : (c.release k).served = c.served :=
  rfl

/-- What serving requests, nested to any depth, does to a cache: a stored result stays, the keys
in progress come back as they were, and a key in progress with no stored result still has none. -/
structure Serves (c c' : SummaryCache κ α) : Prop where
  keeps : ∀ k v, c.get? k = some v → c'.get? k = some v
  claims : c'.claims = c.claims
  unstored : ∀ k ∈ c.claims, c.get? k = none → c'.get? k = none

theorem Serves.refl (c : SummaryCache κ α) : Serves c c :=
  ⟨fun _ _ h => h, rfl, fun _ _ h => h⟩

theorem Serves.trans {c₁ c₂ c₃ : SummaryCache κ α} (h₁ : Serves c₁ c₂) (h₂ : Serves c₂ c₃) : Serves c₁ c₃ where
  keeps k v h := h₂.keeps k v (h₁.keeps k v h)
  claims := h₂.claims.trans h₁.claims
  unstored k hk h := h₂.unstored k (h₁.claims ▸ hk) (h₁.unstored k hk h)

/-- Counting a hit or a cycle fallback touches neither the store nor the claims. -/
theorem serves_count (c : SummaryCache κ α) (hits cycleDefaults : Nat) :
    Serves c { c with hits, cycleDefaults } :=
  ⟨fun _ _ h => h, rfl, fun _ _ h => h⟩

variable {c c₂ : SummaryCache κ α} {k : κ}

/-- A key claimed from `c` whose computation served its requests comes back to `c`'s claims when
settled, and stores nothing over a result already there. -/
theorem Serves.settle (hc : k ∉ c.claims)
    (h : Serves { c with claims := k :: c.claims, misses := c.misses + 1 } c₂) (r : Computed α) :
    Serves c (c₂.settle k r) where
  keeps j v hj := get?_settle_of_get? _ _ _ _ (h.keeps j v hj)
  claims := by rw [claims_settle, h.claims, List.erase_cons_head]
  unstored j hj hnone := by
    have hjk : j ≠ k := fun hjk => hc (hjk ▸ hj)
    rw [get?_settle_ne _ _ hjk]
    exact h.unstored j (List.mem_cons_of_mem _ hj) hnone

/-- The same, when the computation failed and the claim is released. -/
theorem Serves.release
    (h : Serves { c with claims := k :: c.claims, misses := c.misses + 1 } c₂) :
    Serves c (c₂.release k) where
  keeps j v hj := h.keeps j v hj
  claims := by rw [claims_release, h.claims, List.erase_cons_head]
  unstored j hj hnone := h.unstored j (List.mem_cons_of_mem _ hj) hnone

end Serving

end SummaryCache

namespace Request

variable {κ ν : Type} [DecidableEq κ]

/-! ### Scripts -/

/-- What a request computes on a miss: its nested requests in order, then its failure, or its
value with their replies, transient when asked. -/
def onMiss (value : ν) (transient : Bool) (failure : Option String) (nested : List (Request κ ν)) :
    ScriptM κ ν (Computed (Reply ν)) := do
  let replies ← runAll nested
  match failure with
  | some msg => throw (.failed msg)
  | none =>
    let reply := Reply.computed value replies
    pure (if transient then .transient reply else .keep reply)

theorem run_mk (key : κ) (value : ν) (transient : Bool) (failure : Option String) (fallback : ν)
    (nested : List (Request κ ν)) :
    run (.mk key value transient failure fallback nested) =
      SummaryCache.getOrCompute get set key (.fallback fallback) (onMiss value transient failure nested) := by
  rw [run]
  rfl

theorem run_unusable (reason : String) (c : SummaryCache κ (Reply ν)) :
    (run (.unusable reason : Request κ ν)).run.run c = (.error (.rejected reason), c) := by
  rw [run]
  rfl

/-- A guarded request answers what its request answers, or the fallback if that fails; the cache
is left as the request left it either way. -/
theorem run_guarded (r : Request κ ν) (recovered : ν) (c : SummaryCache κ (Reply ν)) :
    (run (.guarded r recovered)).run.run c = match (run r).run.run c with
      | (.ok x, c') => (.ok x, c')
      | (.error _, c') => (.ok (.fallback recovered), c') := by
  rw [run, run_tryCatch_eq]
  rcases (run r).run.run c with ⟨_ | x, c'⟩ <;> rfl

theorem run_guarded_state (r : Request κ ν) (recovered : ν) (c : SummaryCache κ (Reply ν)) :
    ((run (.guarded r recovered)).run.run c).2 = ((run r).run.run c).2 := by
  rw [run_guarded]
  rcases (run r).run.run c with ⟨_ | x, c'⟩ <;> rfl

theorem runAll_cons (r : Request κ ν) (rs : List (Request κ ν)) (c : SummaryCache κ (Reply ν)) :
    (runAll (r :: rs)).run.run c = match (run r).run.run c with
      | (.ok x, c') => match (runAll rs).run.run c' with
        | (.ok xs, c'') => (.ok (x :: xs), c'')
        | (.error e, c'') => (.error e, c'')
      | (.error e, c') => (.error e, c') := by
  rw [runAll, run_bind_eq]
  rcases (run r).run.run c with ⟨_ | x, c'⟩
  · rfl
  · simp only
    rw [run_bind_eq]
    rcases (runAll rs).run.run c' with ⟨_ | xs, c''⟩ <;> rfl

/-- The computation of a miss leaves the cache as its nested requests leave it. -/
theorem onMiss_state (value : ν) (transient : Bool) (failure : Option String) (nested : List (Request κ ν))
    (c : SummaryCache κ (Reply ν)) :
    ((onMiss value transient failure nested).run.run c).2 = ((runAll nested).run.run c).2 := by
  unfold onMiss
  rw [run_bind_eq]
  rcases (runAll nested).run.run c with ⟨_ | replies, c₂⟩
  · rfl
  · cases failure <;> rfl

/-- The number of requests serving `r` from a cache makes: one for its own key, and those of
its nested requests when it computes; a request under a key the cache cannot hold makes none,
and a guarded request makes those of its request. -/
def calls : Request κ ν → SummaryCache κ (Reply ν) → Nat
  | .mk key _ _ _ _ nested, c =>
    match c.lookup key with
    | .claimed c₁ => 1 + callsAll nested c₁
    | _ => 1
  | .unusable _, _ => 0
  | .guarded r _, c => calls r c
where
  /-- The requests serving a list of requests in order makes, up to the first failure. -/
  callsAll : List (Request κ ν) → SummaryCache κ (Reply ν) → Nat
    | [], _ => 0
    | r :: rs, c =>
      match (run r).run.run c with
      | (.ok _, c') => calls r c + callsAll rs c'
      | (.error _, _) => calls r c

/-! ### Every script serves its requests -/

mutual

/-- Serving a request, whatever it nests, keeps stored results, restores the claims and stores
nothing under a key in progress. -/
theorem run_serves : ∀ (r : Request κ ν) (c : SummaryCache κ (Reply ν)),
    SummaryCache.Serves c ((run r).run.run c).2
  | .mk key value transient failure fallback nested, c => by
    rw [run_mk]
    cases h : c.get? key with
    | some v =>
      rw [SummaryCache.run_getOrCompute_hit _ _ _ _ h]
      exact SummaryCache.serves_count c _ _
    | none =>
      by_cases hc : key ∈ c.claims
      · rw [SummaryCache.run_getOrCompute_cycle _ _ _ _ h hc]
        exact SummaryCache.serves_count c _ _
      · rw [SummaryCache.run_getOrCompute_miss _ _ _ _ h hc]
        -- the computation leaves the cache as its nested requests do
        have hnest := runAll_serves nested { c with claims := key :: c.claims, misses := c.misses + 1 }
        rw [← onMiss_state value transient failure] at hnest
        rcases hm : (onMiss value transient failure nested).run.run
          { c with claims := key :: c.claims, misses := c.misses + 1 } with ⟨out, c₂⟩
        rw [hm] at hnest
        cases out with
        | ok r => exact hnest.settle hc r
        | error e => exact hnest.release
  | .unusable reason, c => by
    rw [run_unusable]
    exact .refl c
  | .guarded r recovered, c => by
    -- a caught failure leaves the cache where the failed request left it
    rw [run_guarded_state]
    exact run_serves r c

theorem runAll_serves : ∀ (rs : List (Request κ ν)) (c : SummaryCache κ (Reply ν)),
    SummaryCache.Serves c ((runAll rs).run.run c).2
  | [], c => .refl c
  | r :: rs, c => by
    rw [runAll_cons]
    have h₁ := run_serves r c
    rcases hr : (run r).run.run c with ⟨_ | x, c'⟩
    · rw [hr] at h₁
      exact h₁
    · rw [hr] at h₁
      have h₂ := runAll_serves rs c'
      dsimp only
      rcases hrs : (runAll rs).run.run c' with ⟨_ | xs, c''⟩ <;> rw [hrs] at h₂ <;> exact h₁.trans h₂

end

mutual

/-- Every request a script makes counts exactly one hit, miss or cycle fallback. -/
theorem served_run : ∀ (r : Request κ ν) (c : SummaryCache κ (Reply ν)),
    ((run r).run.run c).2.served = c.served + r.calls c
  | .mk key value transient failure fallback nested, c => by
    rw [run_mk]
    cases h : c.get? key with
    | some v =>
      rw [SummaryCache.run_getOrCompute_hit _ _ _ _ h]
      simp only [calls, SummaryCache.lookup, h, SummaryCache.served]
      omega
    | none =>
      by_cases hc : key ∈ c.claims
      · rw [SummaryCache.run_getOrCompute_cycle _ _ _ _ h hc]
        simp only [calls, SummaryCache.lookup, h, List.contains_iff_mem.mpr hc, if_true,
          SummaryCache.served]
        omega
      · rw [SummaryCache.run_getOrCompute_miss _ _ _ _ h hc]
        have hc' : c.claims.contains key = false := by simpa using hc
        have hnest := served_runAll nested { c with claims := key :: c.claims, misses := c.misses + 1 }
        rw [← onMiss_state value transient failure] at hnest
        have hcalls : (Request.mk key value transient failure fallback nested).calls c =
            1 + calls.callsAll nested { c with claims := key :: c.claims, misses := c.misses + 1 } := by
          simp only [calls, SummaryCache.lookup, h, hc', Bool.false_eq_true, if_false]
        have hclaim : ({ c with claims := key :: c.claims, misses := c.misses + 1 } : SummaryCache κ (Reply ν)).served =
            c.served + 1 := by
          simp only [SummaryCache.served]
          omega
        rcases hm : (onMiss value transient failure nested).run.run
          { c with claims := key :: c.claims, misses := c.misses + 1 } with ⟨out, c₂⟩
        rw [hm] at hnest
        rw [hcalls]
        cases out with
        | ok r =>
          dsimp only
          rw [SummaryCache.served_settle, hnest, hclaim]
          omega
        | error e =>
          dsimp only
          rw [SummaryCache.served_release, hnest, hclaim]
          omega
  | .unusable reason, c => by
    rw [run_unusable]
    simp [calls]
  | .guarded r recovered, c => by
    rw [run_guarded_state, calls]
    exact served_run r c

theorem served_runAll : ∀ (rs : List (Request κ ν)) (c : SummaryCache κ (Reply ν)),
    ((runAll rs).run.run c).2.served = c.served + calls.callsAll rs c
  | [], c => by simp [calls.callsAll, runAll]; rfl
  | r :: rs, c => by
    rw [runAll_cons]
    have h₁ := served_run r c
    rcases hr : (run r).run.run c with ⟨_ | x, c'⟩
    · rw [hr] at h₁
      simp only [calls.callsAll, hr]
      exact h₁
    · rw [hr] at h₁
      dsimp only at h₁
      have h₂ := served_runAll rs c'
      simp only [calls.callsAll, hr]
      rcases hrs : (runAll rs).run.run c' with ⟨_ | xs, c''⟩ <;> rw [hrs] at h₂ <;> dsimp only at h₂ ⊢ <;> omega

end

/-! ### One request, at any depth -/

section One

variable (key : κ) (value fallback : ν) (transient : Bool) (failure : Option String)
  (nested : List (Request κ ν)) {c : SummaryCache κ (Reply ν)}

/-- A request for a key neither stored nor in progress runs its computation once, and stores what it
returns unless that is transient. -/
theorem run_miss (h : c.get? key = none) (hc : key ∉ c.claims) :
    ∃ out c₂, (onMiss value transient failure nested).run.run
        { c with claims := key :: c.claims, misses := c.misses + 1 } = (out, c₂) ∧
      ((run (.mk key value transient failure fallback nested)).run.run c).1 = out.map Computed.value ∧
      ((run (.mk key value transient failure fallback nested)).run.run c).2.get? key =
        (match out with
          | .ok (.keep v) => some v
          | _ => none) ∧
      key ∉ ((run (.mk key value transient failure fallback nested)).run.run c).2.claims ∧
      ∀ j, j ≠ key → ((run (.mk key value transient failure fallback nested)).run.run c).2.get? j = c₂.get? j ∧
        (j ∈ ((run (.mk key value transient failure fallback nested)).run.run c).2.claims ↔ j ∈ c₂.claims) := by
  rw [run_mk, SummaryCache.run_getOrCompute_miss _ _ _ _ h hc]
  -- the computation leaves the key claimed, and stores nothing under it
  have hnest := runAll_serves nested { c with claims := key :: c.claims, misses := c.misses + 1 }
  rw [← onMiss_state value transient failure] at hnest
  rcases hm : (onMiss value transient failure nested).run.run
    { c with claims := key :: c.claims, misses := c.misses + 1 } with ⟨out, c₂⟩
  rw [hm] at hnest
  have hunstored : c₂.get? key = none := hnest.unstored key List.mem_cons_self h
  have hclaims : c₂.claims = key :: c.claims := hnest.claims
  refine ⟨out, c₂, rfl, ?_⟩
  cases out with
  | error e =>
    refine ⟨rfl, hunstored, ?_, fun j hj => ⟨rfl, ?_⟩⟩
    · simp only [SummaryCache.claims_release, hclaims, List.erase_cons_head]
      exact hc
    · simp only [SummaryCache.claims_release]
      exact List.mem_erase_of_ne hj
  | ok r =>
    refine ⟨rfl, ?_, ?_, fun j hj => ⟨SummaryCache.get?_settle_ne _ _ hj, ?_⟩⟩
    · cases r with
      | keep v => exact SummaryCache.get?_settle_keep _ _ _ hunstored
      | transient v => exact hunstored
    · simp only [SummaryCache.claims_settle, hclaims, List.erase_cons_head]
      exact hc
    · simp only [SummaryCache.claims_settle]
      exact List.mem_erase_of_ne hj

/-- The summary cache is a first-writer-wins memo table, whatever a request's computation does. -/
theorem run_firstWriterWins (c : SummaryCache κ (Reply ν)) :
    SummaryCache.Serves c ((run (.mk key value transient failure fallback nested)).run.run c).2 ∧
    (∀ v, c.get? key = some v →
      (run (.mk key value transient failure fallback nested)).run.run c = (.ok v, { c with hits := c.hits + 1 })) ∧
    (c.get? key = none → key ∈ c.claims →
      (run (.mk key value transient failure fallback nested)).run.run c =
        (.ok (.fallback fallback), { c with cycleDefaults := c.cycleDefaults + 1 })) ∧
    (c.get? key = none → key ∉ c.claims →
      ∃ out c₂, (onMiss value transient failure nested).run.run
          { c with claims := key :: c.claims, misses := c.misses + 1 } = (out, c₂) ∧
        ((run (.mk key value transient failure fallback nested)).run.run c).1 = out.map Computed.value ∧
        ((run (.mk key value transient failure fallback nested)).run.run c).2.get? key =
          (match out with
            | .ok (.keep v) => some v
            | _ => none) ∧
        key ∉ ((run (.mk key value transient failure fallback nested)).run.run c).2.claims ∧
        ∀ j, j ≠ key → ((run (.mk key value transient failure fallback nested)).run.run c).2.get? j = c₂.get? j ∧
          (j ∈ ((run (.mk key value transient failure fallback nested)).run.run c).2.claims ↔ j ∈ c₂.claims)) ∧
    (c.claims = [] → ((run (.mk key value transient failure fallback nested)).run.run c).2.claims = []) ∧
    ((run (.mk key value transient failure fallback nested)).run.run c).2.served =
      c.served + (Request.mk key value transient failure fallback nested).calls c := by
  have hserves := run_serves (.mk key value transient failure fallback nested) c
  refine ⟨hserves, fun v h => ?_, fun h hc => ?_, run_miss key value fallback transient failure nested,
    fun h => hserves.claims.trans h, served_run _ c⟩
  · rw [run_mk]
    exact SummaryCache.run_getOrCompute_hit _ _ _ _ h
  · rw [run_mk]
    exact SummaryCache.run_getOrCompute_cycle _ _ _ _ h hc

end One

end Request

end NullGuard
