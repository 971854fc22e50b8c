/-!
# The summary cache

A `SummaryCache` stores completed results by key and counts how requests were served. The
first request for a key claims it and computes the value; a request for a key that is still
being computed (a request that would wait on itself) gets a fallback value instead; a request
for a stored key is a hit. A computed value is stored unless it is marked `transient`, and
the first stored value for a key is the one every later request sees. When a computation
fails, its claim is released and the failure passes on to the requester.

`SummaryCache.getOrCompute` is written for any monad that can fail with `ε`; the state of the
cache is reached through a getter and a setter, so that it may sit inside a larger state.
The lemmas beside `settle` say that a stored value is never replaced, that a kept value fills
an empty key, and that transient values and released claims leave the store as it was.
-/

namespace NullGuard

/-- A computed value, and whether the cache may keep it. -/
inductive Computed (α : Type) where
  /-- A value to store and return. -/
  | keep (v : α)
  /-- A value to return without storing. -/
  | transient (v : α)

/-- The value of a computation, whether kept or not. -/
def Computed.value {α : Type} : Computed α → α
  | .keep v => v
  | .transient v => v

/-- Stored results, keys being computed, and the request counters. -/
structure SummaryCache (κ α : Type) where
  store : List (κ × α) := []
  claims : List κ := []
  hits : Nat := 0
  misses : Nat := 0
  cycleDefaults : Nat := 0
  transients : Nat := 0

namespace SummaryCache

variable {κ α : Type} [DecidableEq κ]

/-- The stored result of a key. -/
def get? (c : SummaryCache κ α) (k : κ) : Option α := c.store.lookup k

/-- Whether a key has a stored result. -/
def contains (c : SummaryCache κ α) (k : κ) : Bool := (c.get? k).isSome

/-- The number of stored results. -/
def size (c : SummaryCache κ α) : Nat := c.store.length

/-- The keys with stored results, in the order they were stored. -/
def keys (c : SummaryCache κ α) : List κ := c.store.map (·.1)

/-- Forget every stored result and reset the counters; claims stay. -/
def clear (c : SummaryCache κ α) : SummaryCache κ α := { claims := c.claims }

/-- How a request is served before any computation. -/
inductive Lookup (κ α : Type) where
  /-- The key has a stored result. -/
  | hit (v : α) (c : SummaryCache κ α)
  /-- The key is being computed: the request would wait on itself. -/
  | cycle (c : SummaryCache κ α)
  /-- The request claims the key and must compute it. -/
  | claimed (c : SummaryCache κ α)

/-- Serve a request as far as the cache can, updating the counters. -/
def lookup (c : SummaryCache κ α) (k : κ) : Lookup κ α :=
  match c.get? k with
  | some v => .hit v { c with hits := c.hits + 1 }
  | none =>
    if c.claims.contains k then .cycle { c with cycleDefaults := c.cycleDefaults + 1 }
    else .claimed { c with claims := k :: c.claims, misses := c.misses + 1 }

/-- Release the claim on a key. -/
def release (c : SummaryCache κ α) (k : κ) : SummaryCache κ α :=
  { c with claims := c.claims.erase k }

/-- Settle a claimed key with its computed value: store it unless it is transient, and release
the claim. -/
def settle (c : SummaryCache κ α) (k : κ) : Computed α → SummaryCache κ α
  | .keep v => { c with store := c.store ++ [(k, v)] }.release k
  | .transient _ => { c with transients := c.transients + 1 }.release k

@[simp] theorem get?_release (c : SummaryCache κ α) (k j : κ) : (c.release k).get? j = c.get? j :=
  rfl

/-- A look-up in two lists answers from the first, and from the second only when the first has
no entry. -/
theorem lookup_append (es rest : List (κ × α)) (j : κ) :
    (es ++ rest).lookup j = (es.lookup j).or (rest.lookup j) := by
  induction es with
  | nil => rfl
  | cons e es ih =>
    obtain ⟨k, w⟩ := e
    by_cases hk : j = k
    · simp [hk]
    · have hne : (j == k) = false := by simpa using hk
      simp [List.lookup_cons, hne, ih]

/-- The first stored value of a key is never replaced. -/
theorem get?_settle_of_get? (c : SummaryCache κ α) (k j : κ) (r : Computed α) {v : α}
    (h : c.get? j = some v) : (c.settle k r).get? j = some v := by
  cases r with
  | keep w =>
    show (c.store ++ [(k, w)]).lookup j = some v
    have h' : c.store.lookup j = some v := h
    simp [lookup_append, h']
  | transient w => exact h

/-- A kept value is stored when the key had none. -/
theorem get?_settle_keep (c : SummaryCache κ α) (k : κ) (v : α) (h : c.get? k = none) :
    (c.settle k (.keep v)).get? k = some v := by
  show (c.store ++ [(k, v)]).lookup k = some v
  have h' : c.store.lookup k = none := h
  simp [lookup_append, h']

/-- A transient value is not stored. -/
@[simp] theorem get?_settle_transient (c : SummaryCache κ α) (k j : κ) (v : α) :
    (c.settle k (.transient v)).get? j = c.get? j :=
  rfl

theorem claims_settle (c : SummaryCache κ α) (k : κ) (r : Computed α) :
    (c.settle k r).claims = c.claims.erase k := by
  cases r <;> rfl

/-- A settled key reads the kept value; every other key reads as before. -/
theorem get?_settle_cases (c : SummaryCache κ α) (k j : κ) (r : Computed α) {w : α}
    (h : (c.settle k r).get? j = some w) : c.get? j = some w ∨ (j = k ∧ r = .keep w) := by
  cases r with
  | transient v => exact .inl h
  | keep v =>
    have h' : (c.store ++ [(k, v)]).lookup j = some w := h
    rw [lookup_append] at h'
    cases hj : c.store.lookup j with
    | some u =>
      rw [hj] at h'
      exact .inl (hj.trans h')
    | none =>
      rw [hj] at h'
      by_cases hjk : j = k
      · subst hjk
        simp at h'
        exact .inr ⟨rfl, by rw [h']⟩
      · have hne : (j == k) = false := by simpa using hjk
        simp [List.lookup_cons, hne] at h'

/-- Settling a key leaves every other key as it reads. -/
theorem get?_settle_ne (c : SummaryCache κ α) {k j : κ} (r : Computed α) (h : j ≠ k) :
    (c.settle k r).get? j = c.get? j := by
  cases r with
  | transient v => rfl
  | keep v =>
    show (c.store ++ [(k, v)]).lookup j = c.store.lookup j
    have hne : (j == k) = false := by simpa using h
    rw [lookup_append]
    cases c.store.lookup j <;> simp [List.lookup_cons, hne]

@[simp] theorem claims_release (c : SummaryCache κ α) (k : κ) : (c.release k).claims = c.claims.erase k :=
  rfl

/-- The result for a key: the stored one, the fallback on a request that would wait on itself,
or a freshly computed one. -/
def getOrCompute {ε : Type} {m : Type → Type} [Monad m] [MonadExcept ε m]
    (read : m (SummaryCache κ α)) (write : SummaryCache κ α → m Unit)
    (k : κ) (fallback : α) (compute : m (Computed α)) : m α := do
  match (← read).lookup k with
  | .hit v c => write c; pure v
  | .cycle c => write c; pure fallback
  | .claimed c =>
    write c
    let r ← tryCatch compute fun e => do
      write ((← read).release k)
      throw e
    write ((← read).settle k r)
    pure r.value

end SummaryCache

end NullGuard
