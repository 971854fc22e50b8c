import NullGuard.Proofs.Unlimited

/-!
# Stored outcomes do not depend on the call-chain limit

A summary request made when the call chain is longer than the limit gets the empty summary
(or a stored outcome), and every procedure then on the chain is marked as cut off. A procedure
whose analysis ends marked returns its outcome without storing it. The point of the marks is
that what is stored never depends on the limit.

The marks on the chain always cover a prefix of it (`SessionOK.marked`): a cut-off marks the
whole chain, and entering or leaving a procedure clears only its own mark. So a procedure whose
analysis ends unmarked saw no cut-off below it, every summary it asked for was exact, and by
induction on the calls below it its outcome is the one with no limit (`resultOf_served`).
Where the calls below the procedures requested never come back, every outcome a sequence of
requests stores, each with its own limit, is the outcome with no limit
(`stored_outcome_unlimited`).
-/

namespace NullGuard

namespace Analysis

/-! ### The steps of a request -/

section Steps

variable (env : Env) (resolve : MethodId → SessionM (Option Outcome)) (c : MethodId) (t : Session)

theorem tryCatch_sessionM {α : Type} (x : SessionM α) (h : Empty → SessionM α) : tryCatch x h = x := rfl

theorem run_summaryOf_of_not (h : isSummarizable env c = false) : (summaryOf env resolve c).run t = (none, t) := by
  simp [summaryOf, h]
  rfl

theorem run_summaryOf_stored (h : isSummarizable env c = true)
    (hlong : (t.chain.length : Int) > env.options.maxCallChain) {r : Outcome} (hr : t.cache.get? c = some (some r)) :
    (summaryOf env resolve c).run t = (some r.usages, t) := by
  simp [summaryOf, h, hlong, hr]
  rfl

theorem run_summaryOf_cut (h : isSummarizable env c = true)
    (hlong : (t.chain.length : Int) > env.options.maxCallChain) (hr : ∀ r, t.cache.get? c ≠ some (some r)) :
    (summaryOf env resolve c).run t =
      (some UsageMap.empty, { t with cutOff := t.cutOff ++ t.chain.filter (!t.cutOff.contains ·) }) := by
  unfold summaryOf
  simp only [h, Bool.not_true, Bool.false_eq_true, if_false, StateT.run_bind, StateT.run_get, pure_bind,
    if_pos hlong]
  cases hg : t.cache.get? c with
  | none => rfl
  | some v =>
    cases v with
    | none => rfl
    | some r => exact absurd hg (hr r)

theorem run_summaryOf_resolve (h : isSummarizable env c = true)
    (hshort : ¬ (t.chain.length : Int) > env.options.maxCallChain) {o : Option Outcome} {t' : Session}
    (hres : (resolve c).run t = (o, t')) :
    (summaryOf env resolve c).run t = (o.elim (some UsageMap.empty) fun r => some r.usages, t') := by
  simp [summaryOf, h, hshort, hres]
  cases o <;> rfl

variable (k : MethodId) (fb : Option Outcome) (compute : SessionM (Computed (Option Outcome)))

theorem run_getOrCompute_stored {v : Option Outcome} (h : t.cache.get? k = some v) :
    (SummaryCache.getOrCompute (do return (← get).cache) (fun c => modify fun s => { s with cache := c }) k fb
      compute).run t = (v, { t with cache := { t.cache with hits := t.cache.hits + 1 } }) := by
  simp [SummaryCache.getOrCompute, SummaryCache.lookup, h]
  rfl

theorem run_getOrCompute_claimed (h : t.cache.get? k = none) (hc : k ∉ t.cache.claims)
    {r : Computed (Option Outcome)} {t' : Session}
    (hrun : compute.run
      { t with cache := { t.cache with claims := k :: t.cache.claims, misses := t.cache.misses + 1 } } = (r, t')) :
    (SummaryCache.getOrCompute (do return (← get).cache) (fun c => modify fun s => { s with cache := c }) k fb
      compute).run t = (r.value, { t' with cache := t'.cache.settle k r }) := by
  simp only at hrun
  simp [SummaryCache.getOrCompute, SummaryCache.lookup, h, hc, tryCatch_sessionM, hrun]
  rfl

/-- A request for a key with no stored outcome and no claim runs the computation, from the
session with the key claimed, and settles the key with what it computed. -/
theorem getOrCompute_claimed_inv (h : t.cache.get? k = none) (hc : k ∉ t.cache.claims)
    {res : Option Outcome} {t' : Session}
    (hrun : (SummaryCache.getOrCompute (do return (← get).cache) (fun c => modify fun s => { s with cache := c })
      k fb compute).run t = (res, t')) :
    ∃ r t'', compute.run
        { t with cache := { t.cache with claims := k :: t.cache.claims, misses := t.cache.misses + 1 } } = (r, t'') ∧
      res = r.value ∧ t' = { t'' with cache := t''.cache.settle k r } := by
  rcases hcomp : compute.run
    { t with cache := { t.cache with claims := k :: t.cache.claims, misses := t.cache.misses + 1 } } with ⟨r, t''⟩
  rw [run_getOrCompute_claimed t k fb compute h hc hcomp] at hrun
  obtain ⟨hres, ht'⟩ := Prod.mk.inj hrun
  exact ⟨r, t'', rfl, hres.symm, ht'.symm⟩

end Steps

theorem bind_eq_inv {α β : Type} {x : Id α} {f : α → Id β} {b : β} (h : x >>= f = b) : ∃ a, x = a ∧ f a = b :=
  ⟨x, rfl, h⟩

/-! ### Sessions -/

/-- Every outcome a cache stores is the procedure's outcome with no call-chain limit. -/
def StoresUnlimited (env : Env) (c : OutcomeCache) : Prop :=
  ∀ X v, c.get? X = some v → ∃ r, v = some r ∧ Unlimited env X r

/-- What holds of a session between the steps of a request: the cache stores outcomes with no
call-chain limit and claims exactly the procedures on the chain, the chain has no repeats and
every procedure on it below the first has a graph, and the marked procedures of the chain are
a prefix of it. -/
structure SessionOK (env : Env) (s : Session) : Prop where
  stores : StoresUnlimited env s.cache
  claims : s.cache.claims = s.chain.reverse
  nodup : s.chain.Nodup
  graphs : ∀ Y ∈ s.chain.tail, (env.facts.graph? Y).isSome
  cutNodup : s.cutOff.Nodup
  marked : ∃ pre post, s.chain = pre ++ post ∧ (∀ Y ∈ pre, Y ∈ s.cutOff) ∧ ∀ Y ∈ post, Y ∉ s.cutOff

/-- A chain that ends with `X`, split in two: either the second part is empty, or it ends with
`X`. -/
theorem append_singleton_eq_append {ch pre post : List MethodId} {X : MethodId} (h : ch ++ [X] = pre ++ post) :
    (post = [] ∧ pre = ch ++ [X]) ∨ ∃ L, post = L ++ [X] ∧ ch = pre ++ L := by
  rcases List.eq_nil_or_concat post with rfl | ⟨L, b, rfl⟩
  · exact .inl ⟨rfl, by simpa using h.symm⟩
  · rw [List.concat_eq_append] at h ⊢
    rw [← List.append_assoc] at h
    obtain ⟨hch, hX⟩ := List.append_inj' h rfl
    obtain rfl : X = b := by simpa using hX
    exact .inr ⟨L, rfl, hch⟩

theorem mem_cutOff_cut {s : Session} {Y : MethodId} (hY : Y ∈ s.chain) :
    Y ∈ s.cutOff ++ s.chain.filter (!s.cutOff.contains ·) := by
  by_cases h : Y ∈ s.cutOff
  · exact List.mem_append_left _ h
  · exact List.mem_append_right _ (List.mem_filter.mpr ⟨hY, by simpa using h⟩)

/-- A cut-off adds the unmarked procedures of a chain without repeats to distinct marks, so
the marks stay distinct. -/
theorem nodup_cutOff_cut {s : Session} (hch : s.chain.Nodup) (hcut : s.cutOff.Nodup) :
    (s.cutOff ++ s.chain.filter (!s.cutOff.contains ·)).Nodup := by
  refine List.nodup_append.mpr ⟨hcut, hch.filter _, fun Y hY Y' hY' hYY' => ?_⟩
  subst hYY'
  simp [hY] at hY'

/-- Erasing the mark of a procedure off the chain keeps the marks of the chain. -/
theorem mem_erase_of_mem_chain {ch cut : List MethodId} {X Y : MethodId} (hX : X ∉ ch) (hY : Y ∈ ch)
    (hm : Y ∈ cut) : Y ∈ cut.erase X :=
  (List.mem_erase_of_ne fun (e : Y = X) => hX (e ▸ hY)).mpr hm

namespace SessionOK

variable {env : Env}

/-- A cut-off marks the whole chain. -/
theorem cut {s : Session} (h : SessionOK env s) :
    SessionOK env { s with cutOff := s.cutOff ++ s.chain.filter (!s.cutOff.contains ·) } where
  stores := h.stores
  claims := h.claims
  nodup := h.nodup
  graphs := h.graphs
  cutNodup := nodup_cutOff_cut h.nodup h.cutNodup
  marked := ⟨s.chain, [], by simp, fun _ hY => mem_cutOff_cut hY, by simp⟩

/-- Claiming a procedure off the chain and entering it. -/
theorem enter {s : Session} {X : MethodId} (h : SessionOK env s) (hX : X ∉ s.chain)
    (hg : s.chain ≠ [] → (env.facts.graph? X).isSome) :
    SessionOK env
      { cache := { s.cache with claims := X :: s.cache.claims, misses := s.cache.misses + 1 },
        chain := s.chain ++ [X], cutOff := s.cutOff.erase X } where
  stores := h.stores
  claims := by simp [h.claims]
  nodup := by
    rw [← List.concat_eq_append]
    exact h.nodup.concat hX
  graphs := by
    intro Y hY
    cases hch : s.chain with
    | nil => simp [hch] at hY
    | cons Z zs =>
      rw [hch, List.cons_append, List.tail_cons, List.mem_append, List.mem_singleton] at hY
      rcases hY with hY | rfl
      · exact h.graphs Y (by rw [hch]; exact hY)
      · exact hg (by simp [hch])
  cutNodup := h.cutNodup.erase X
  marked := by
    obtain ⟨pre, post, hch, hpre, hpost⟩ := h.marked
    refine ⟨pre, post ++ [X], by rw [hch, List.append_assoc], fun Y hY => ?_, fun Y hY => ?_⟩
    · exact mem_erase_of_mem_chain hX (hch ▸ List.mem_append_left _ hY) (hpre Y hY)
    · rcases List.mem_append.mp hY with hY | hY
      · exact fun hm => hpost Y hY (List.mem_of_mem_erase hm)
      · rw [List.mem_singleton.mp hY]
        exact h.cutNodup.not_mem_erase

/-- With the last procedure of the chain marked, the whole chain is. -/
theorem marked_of_last {t : Session} {ch : List MethodId} {X : MethodId} (h : SessionOK env t)
    (ht : t.chain = ch ++ [X]) (hX : X ∈ t.cutOff) : ∀ Y ∈ ch, Y ∈ t.cutOff := by
  obtain ⟨pre, post, hch, hpre, hpost⟩ := h.marked
  rw [ht] at hch
  rcases append_singleton_eq_append hch with ⟨-, rfl⟩ | ⟨L, rfl, -⟩
  · exact fun Y hY => hpre Y (List.mem_append_left _ hY)
  · exact absurd hX (hpost X (List.mem_append_right _ (List.mem_singleton_self X)))

/-- Leaving the last procedure of the chain and settling its claim. -/
theorem leave {t : Session} {ch : List MethodId} {X : MethodId} (h : SessionOK env t) (ht : t.chain = ch ++ [X])
    (r : Computed (Option Outcome)) (hr : ∀ v, r = .keep v → ∃ o, v = some o ∧ Unlimited env X o) :
    SessionOK env { cache := t.cache.settle X r, chain := t.chain.dropLast, cutOff := t.cutOff.erase X } := by
  have hnd : (ch.concat X).Nodup := by
    rw [List.concat_eq_append, ← ht]
    exact h.nodup
  obtain ⟨hX, hnd⟩ := (List.nodup_concat ch X).mp hnd
  refine ⟨fun Y v hv => ?_, ?_, ?_, ?_, h.cutNodup.erase X, ?_⟩
  · rcases SummaryCache.get?_settle_cases _ _ _ _ hv with hv | ⟨rfl, hkeep⟩
    · exact h.stores Y v hv
    · exact hr v hkeep
  · simp [SummaryCache.claims_settle, h.claims, ht]
  · rw [ht, List.dropLast_concat]
    exact hnd
  · intro Y hY
    apply h.graphs Y
    rw [ht]
    rw [ht, List.dropLast_concat] at hY
    cases ch with
    | nil => simp at hY
    | cons Z zs => exact List.mem_append_left _ hY
  · obtain ⟨pre, post, hch, hpre, hpost⟩ := h.marked
    rw [ht] at hch
    dsimp only
    rw [ht, List.dropLast_concat]
    rcases append_singleton_eq_append hch with ⟨rfl, rfl⟩ | ⟨L, rfl, rfl⟩
    · refine ⟨ch, [], by simp, fun Y hY => ?_, by simp⟩
      exact mem_erase_of_mem_chain hX hY (hpre Y (List.mem_append_left _ hY))
    · refine ⟨pre, L, rfl, fun Y hY => ?_, fun Y hY hm => ?_⟩
      · exact mem_erase_of_mem_chain hX (List.mem_append_left _ hY) (hpre Y hY)
      · exact hpost Y (List.mem_append_left _ hY) (List.mem_of_mem_erase hm)

/-- Serving a request from the cache touches only its counters. -/
theorem hit {s : Session} (h : SessionOK env s) :
    SessionOK env { s with cache := { s.cache with hits := s.cache.hits + 1 } } :=
  ⟨h.stores, h.claims, h.nodup, h.graphs, h.cutNodup, h.marked⟩

end SessionOK

/-! ### Requests -/

variable {env : Env}

/-- Calls below a procedure that never come back never reach it again. -/
theorem not_transGen_self_of_acc {X : MethodId} (h : Acc (fun C Y => Calls env Y C) X) :
    ¬ Relation.TransGen (Calls env) X X := by
  induction h with
  | intro X _ ih =>
    intro hX
    obtain ⟨Y, hXY, hYX⟩ := Relation.TransGen.head'_iff.mp hX
    exact ih Y hXY (Relation.TransGen.tail' hYX hXY)

theorem graph_of_calls {X C : MethodId} (h : Calls env X C) : (env.facts.graph? C).isSome := by
  have hsum := h.1
  unfold isSummarizable at hsum
  exact ((Bool.and_eq_true _ _).mp hsum).2

theorem mem_keys_of_graph {facts : Facts} {Y : MethodId} (h : (facts.graph? Y).isSome) :
    Y ∈ facts.graphs.map Prod.fst := by
  obtain ⟨p, hp, hY⟩ := List.lookup_isSome_iff.mp h
  exact List.mem_map.mpr ⟨p, hp, (beq_iff_eq.mp hY).symm⟩

/-- A request for `X` from session `s` with `n` nested analyses left: the session is sound, the
calls below `X` never come back, every procedure on the chain reaches `X` by calls, and the
nesting bound counts the chain. -/
structure Frame (env : Env) (n : Nat) (X : MethodId) (s : Session) : Prop where
  ok : SessionOK env s
  acc : Acc (fun C Y => Calls env Y C) X
  below : ∀ Y ∈ s.chain, Relation.TransGen (Calls env) Y X
  fuel : n + s.chain.length = env.facts.graphs.length + 1

/-- The sessions the body of `X` runs in, when `X` was requested from `s`: sound, with `X` on
top of the chain of `s`, and every mark the chain of `s` had. -/
def InBody (env : Env) (s : Session) (X : MethodId) (t : Session) : Prop :=
  SessionOK env t ∧ t.chain = s.chain ++ [X] ∧ ∀ Y ∈ s.chain, Y ∈ s.cutOff → Y ∈ t.cutOff

/-- What serving a request for `X` from `s` guarantees of its outcome `r` and of the session
`s'` it leaves: a sound session with the same chain, whose marks on the chain only grow, and an
outcome that is the one with no call-chain limit unless the whole chain is marked. -/
structure Served (env : Env) (X : MethodId) (s s' : Session) (r : Outcome) : Prop where
  ok : SessionOK env s'
  chain : s'.chain = s.chain
  marks : ∀ Y ∈ s.chain, Y ∈ s.cutOff → Y ∈ s'.cutOff
  exact : Unlimited env X r ∨ ∀ Y ∈ s.chain, Y ∈ s'.cutOff

namespace Frame

variable {n : Nat} {X : MethodId} {s : Session}

theorem not_mem_chain (hf : Frame env n X s) : X ∉ s.chain :=
  fun hX => not_transGen_self_of_acc hf.acc (hf.below X hX)

theorem graph (hf : Frame env n X s) (hne : s.chain ≠ []) : (env.facts.graph? X).isSome := by
  obtain ⟨Y, hY⟩ := List.exists_mem_of_ne_nil _ hne
  obtain ⟨Z, -, hZ⟩ := Relation.TransGen.tail'_iff.mp (hf.below Y hY)
  exact graph_of_calls hZ

/-- The nesting bound is never reached: below its first procedure, the chain and the procedure
requested are distinct procedures with graphs. -/
theorem fuel_pos (hf : Frame env n X s) : 0 < n := by
  have hfuel := hf.fuel
  cases hch : s.chain with
  | nil =>
    rw [hch, List.length_nil] at hfuel
    omega
  | cons Z zs =>
    have hnd : (Z :: zs).Nodup := hch ▸ hf.ok.nodup
    have hX : X ∉ Z :: zs := hch ▸ hf.not_mem_chain
    have hnd' : (zs ++ [X]).Nodup := by
      rw [← List.concat_eq_append]
      exact (List.nodup_cons.mp hnd).2.concat fun h => hX (List.mem_cons_of_mem Z h)
    have hsub : zs ++ [X] ⊆ env.facts.graphs.map Prod.fst := by
      intro Y hY
      rcases List.mem_append.mp hY with hY | hY
      · exact mem_keys_of_graph (hf.ok.graphs Y (by rw [hch]; exact hY))
      · rw [List.mem_singleton.mp hY]
        exact mem_keys_of_graph (hf.graph (by simp [hch]))
    have hlen := hnd'.length_le_of_subset hsub
    rw [List.length_append, List.length_singleton, List.length_map] at hlen
    rw [hch, List.length_cons] at hfuel
    omega

/-- A request the body of `X` makes for a callee. -/
theorem inner (hf : Frame env (n + 1) X s) {C : MethodId} (hc : Calls env X C) {t : Session}
    (ht : InBody env s X t) : Frame env n C t where
  ok := ht.1
  acc := hf.acc.inv hc
  below Y hY := by
    rw [ht.2.1] at hY
    rcases List.mem_append.mp hY with hY | hY
    · exact (hf.below Y hY).tail hc
    · rw [List.mem_singleton.mp hY]
      exact .single hc
  fuel := by
    have hfuel := hf.fuel
    rw [ht.2.1, List.length_append, List.length_singleton]
    omega

end Frame

/-- Within the body of `X`, a summary request keeps the body's sessions, keeps the mark of `X`,
and answers what the outcomes with no call-chain limit give unless `X` ends marked. -/
theorem summaryOf_answers {n : Nat}
    (ih : ∀ C t, Frame env n C t → ∀ res t', (resultOf env n C).run t = (res, t') →
      ∃ r, res = some r ∧ Served env C t t' r)
    {X : MethodId} {s : Session} (hf : Frame env (n + 1) X s) {R : MethodId → Outcome}
    (hR : ∀ C, Calls env X C → Unlimited env C (R C)) {c : MethodId}
    (hc : isSummarizable env c = true → Calls env X c) (t : Session) (ht : InBody env s X t)
    (o : Option UsageMap) (t' : Session) (hrun : (summaryOf env (resultOf env n) c).run t = (o, t')) :
    InBody env s X t' ∧ (X ∈ t.cutOff → X ∈ t'.cutOff) ∧ (X ∉ t'.cutOff → o = answerFrom env R c) := by
  obtain ⟨hok, hch, hmk⟩ := ht
  have hXch : X ∈ t.chain := by simp [hch]
  cases hsum : isSummarizable env c with
  | false =>
    rw [run_summaryOf_of_not env _ c t hsum] at hrun
    obtain ⟨rfl, rfl⟩ := Prod.mk.inj hrun
    exact ⟨⟨hok, hch, hmk⟩, id, fun _ => by simp [answerFrom, hsum]⟩
  | true =>
    have hcall := hc hsum
    by_cases hlong : (t.chain.length : Int) > env.options.maxCallChain
    · -- beyond the limit: a stored outcome is exact, and otherwise the whole chain is marked
      by_cases hstored : ∃ r, t.cache.get? c = some (some r)
      · obtain ⟨r, hr⟩ := hstored
        rw [run_summaryOf_stored env _ c t hsum hlong hr] at hrun
        obtain ⟨rfl, rfl⟩ := Prod.mk.inj hrun
        obtain ⟨r', hr', hu⟩ := hok.stores c _ hr
        cases hr'
        refine ⟨⟨hok, hch, hmk⟩, id, fun _ => ?_⟩
        simp [answerFrom, hsum, (hR c hcall).unique hu]
      · rw [run_summaryOf_cut env _ c t hsum hlong fun r hr => hstored ⟨r, hr⟩] at hrun
        obtain ⟨rfl, rfl⟩ := Prod.mk.inj hrun
        refine ⟨⟨hok.cut, hch, fun Y hY hm => List.mem_append_left _ (hmk Y hY hm)⟩,
          fun hX => List.mem_append_left _ hX, fun hX => absurd (mem_cutOff_cut hXch) hX⟩
    · rcases hres : (resultOf env n c).run t with ⟨res, t''⟩
      rw [run_summaryOf_resolve env _ c t hsum hlong hres] at hrun
      obtain ⟨r, rfl, hserved⟩ := ih c t (hf.inner hcall ⟨hok, hch, hmk⟩) res t'' hres
      obtain ⟨rfl, rfl⟩ := Prod.mk.inj hrun
      refine ⟨⟨hserved.ok, hserved.chain.trans hch, fun Y hY hm => hserved.marks Y (by simp [hch, hY]) (hmk Y hY hm)⟩,
        fun hX => hserved.marks X hXch hX, fun hX => ?_⟩
      rcases hserved.exact with hu | hall
      · simp [answerFrom, hsum, (hR c hcall).unique hu]
      · exact absurd (hall X hXch) hX

/-- A request for a procedure whose calls below never come back is served: its outcome is
exact unless the whole chain ends marked, and the session stays sound. -/
theorem resultOf_served (env : Env) : ∀ (n : Nat) (X : MethodId) (s : Session), Frame env n X s →
    ∀ res s', (resultOf env n X).run s = (res, s') → ∃ r, res = some r ∧ Served env X s s' r
  | 0, _, _, hf, _, _, _ => absurd hf.fuel_pos (Nat.lt_irrefl 0)
  | n + 1, X, s, hf, res, s', hrun => by
    have hX := hf.not_mem_chain
    unfold resultOf at hrun
    simp only [StateT.run_bind, StateT.run_get, pure_bind] at hrun
    rw [if_neg (by simpa using hX)] at hrun
    cases hg : s.cache.get? X with
    | some v =>
      -- a stored outcome is the one with no limit
      rw [run_getOrCompute_stored s X none _ hg] at hrun
      obtain ⟨rfl, rfl⟩ := Prod.mk.inj hrun
      obtain ⟨r, rfl, hu⟩ := hf.ok.stores X v hg
      exact ⟨r, rfl, hf.ok.hit, rfl, fun _ _ h => h, .inl hu⟩
    | none =>
      have hcl : X ∉ s.cache.claims := by
        rw [hf.ok.claims, List.mem_reverse]
        exact hX
      obtain ⟨r', t'', hcomp, rfl, rfl⟩ := getOrCompute_claimed_inv s X none _ hg hcl hrun
      simp only [StateT.run_bind, enter, leave, StateT.run_modify, pure_bind, StateT.run_get,
        StateT.run_pure] at hcomp
      obtain ⟨⟨r₀, s₃⟩, hbody, hrest⟩ := bind_eq_inv hcomp
      obtain ⟨rfl, rfl⟩ := Prod.mk.inj hrest
      -- the body runs on top of the chain, its requests answered by the outcomes with no limit
      obtain ⟨R, hR⟩ := Unlimited.exists_table hf.acc
      have hs₂ : InBody env s X
          { cache := { s.cache with claims := X :: s.cache.claims, misses := s.cache.misses + 1 },
            chain := s.chain ++ [X], cutOff := s.cutOff.erase X } :=
        ⟨hf.ok.enter hX hf.graph, rfl, fun Y hY hm => mem_erase_of_mem_chain hX hY hm⟩
      obtain ⟨⟨hok₃, hch₃, hmk₃⟩, -, hexact⟩ := analyzeBody_answers env _ (answerFrom env R) X
        (fun g hg b c hcb => summaryOf_answers (resultOf_served env n) hf hR
          fun hsum => ⟨hsum, g, hg, b, hcb⟩) _ hs₂ hbody
      refine ⟨r₀, by split <;> rfl, ?_, ?_, ?_, ?_⟩
      · refine hok₃.leave hch₃ _ fun v hv => ?_
        split at hv
        · cases hv
        · rename_i hcut
          cases hv
          exact ⟨r₀, rfl, hexact (by simpa using hcut) ▸ Unlimited.body X R hR⟩
      · simp [hch₃]
      · exact fun Y hY hm => mem_erase_of_mem_chain hX hY (hmk₃ Y hY hm)
      · by_cases hcut : X ∈ s₃.cutOff
        · exact .inr fun Y hY => mem_erase_of_mem_chain hX hY (hok₃.marked_of_last hch₃ hcut Y hY)
        · exact .inl (hexact hcut ▸ Unlimited.body X R hR)

/-! ### Sequences of requests -/

/-- A request from outside, from a cache storing only outcomes with no call-chain limit and
claiming nothing, leaves such a cache. -/
theorem analyze_stores {c : OutcomeCache} (hc : StoresUnlimited env c) (hcl : c.claims = []) {p : MethodId}
    (hp : Acc (fun C Y => Calls env Y C) p) :
    StoresUnlimited env ((analyze env p).run { cache := c }).2.cache ∧
      ((analyze env p).run { cache := c }).2.cache.claims = [] := by
  have hf : Frame env (env.facts.graphs.length + 1) p { cache := c } :=
    ⟨⟨hc, by simp [hcl], List.nodup_nil, by simp, List.nodup_nil, ⟨[], [], rfl, by simp, by simp⟩⟩, hp,
      by simp, by simp⟩
  rcases hres : (resultOf env (env.facts.graphs.length + 1) p).run { cache := c } with ⟨res, s'⟩
  obtain ⟨r, rfl, hs⟩ := resultOf_served env _ p _ hf _ _ hres
  have hrun : (analyze env p).run { cache := c } = (r, s') := by
    simp [analyze, hres]
    rfl
  rw [hrun]
  exact ⟨hs.ok.stores, by rw [hs.ok.claims, hs.chain]; rfl⟩

/-- The outcome with no call-chain limit does not depend on the limit the options give. -/
theorem unlimited_maxCallChain {facts : Facts} {o : Options} {k : Int} {X : MethodId} {r : Outcome} :
    Unlimited ⟨facts, { o with maxCallChain := k }⟩ X r ↔ Unlimited ⟨facts, o⟩ X r := by
  constructor
  · intro h
    induction h with
    | body X R _ ih => exact Unlimited.body X R ih
  · intro h
    induction h with
    | body X R _ ih => exact Unlimited.body X R ih

theorem storesUnlimited_maxCallChain {facts : Facts} {o : Options} {k : Int} {c : OutcomeCache} :
    StoresUnlimited ⟨facts, { o with maxCallChain := k }⟩ c ↔ StoresUnlimited ⟨facts, o⟩ c := by
  unfold StoresUnlimited
  simp only [unlimited_maxCallChain]

/-- The cache after requests from outside made in order, each with its own call-chain limit and
otherwise the same options, all sharing one cache. -/
def cacheAfter (facts : Facts) (o : Options) (reqs : List (Int × MethodId)) (c : OutcomeCache) : OutcomeCache :=
  reqs.foldl (fun c q => ((analyze ⟨facts, { o with maxCallChain := q.1 }⟩ q.2).run { cache := c }).2.cache) c

theorem cacheAfter_stores (facts : Facts) (o : Options) :
    ∀ (reqs : List (Int × MethodId)), (∀ q ∈ reqs, Acc (fun C Y => Calls ⟨facts, o⟩ Y C) q.2) →
      ∀ c, StoresUnlimited ⟨facts, o⟩ c → c.claims = [] →
        StoresUnlimited ⟨facts, o⟩ (cacheAfter facts o reqs c) ∧ (cacheAfter facts o reqs c).claims = []
  | [], _, c, hc, hcl => ⟨hc, hcl⟩
  | (k, p) :: reqs, hacc, c, hc, hcl => by
    -- one request, run with its own limit, keeps the cache sound for the base options
    have hc' : StoresUnlimited ⟨facts, { o with maxCallChain := k }⟩ c := storesUnlimited_maxCallChain.mpr hc
    obtain ⟨hs, hcl'⟩ := analyze_stores hc' hcl (hacc (k, p) List.mem_cons_self)
    exact cacheAfter_stores facts o reqs (fun q hq => hacc q (List.mem_cons_of_mem _ hq)) _
      (storesUnlimited_maxCallChain.mp hs) hcl'

/-- Stored outcomes never depend on the call-chain limit. -/
theorem stored_outcome_unlimited (facts : Facts) (o : Options) (reqs : List (Int × MethodId))
    (hacc : ∀ q ∈ reqs, Acc (fun C Y => Calls ⟨facts, o⟩ Y C) q.2) (X : MethodId) (v : Option Outcome)
    (hv : (cacheAfter facts o reqs {}).get? X = some v) : ∃ r, v = some r ∧ Unlimited ⟨facts, o⟩ X r :=
  (cacheAfter_stores facts o reqs hacc {} (fun _ _ h => nomatch h) rfl).1 X v hv

/-- What two sequences of requests store for a procedure is the same, whatever their order and
their limits. -/
theorem stored_outcome_eq (facts : Facts) (o : Options) {reqs reqs' : List (Int × MethodId)}
    (hacc : ∀ q ∈ reqs, Acc (fun C Y => Calls ⟨facts, o⟩ Y C) q.2)
    (hacc' : ∀ q ∈ reqs', Acc (fun C Y => Calls ⟨facts, o⟩ Y C) q.2) {X : MethodId} {v v' : Option Outcome}
    (hv : (cacheAfter facts o reqs {}).get? X = some v) (hv' : (cacheAfter facts o reqs' {}).get? X = some v') :
    v = v' := by
  have hempty : StoresUnlimited ⟨facts, o⟩ {} := fun _ _ h => nomatch h
  obtain ⟨r, rfl, hu⟩ := (cacheAfter_stores facts o reqs hacc {} hempty rfl).1 X v hv
  obtain ⟨r', rfl, hu'⟩ := (cacheAfter_stores facts o reqs' hacc' {} hempty rfl).1 X v' hv'
  rw [hu.unique hu']

/-- `f` calls `g`, a method visible only in its assembly. -/
def callerProgram : Program :=
  { types := #[{ name := "T" }],
    methods := #[{ name := "f", owner := 0 }, { name := "g", owner := 0, access := .assembly }] }

/-- The graph of `f`: one block calling `g`. -/
def callerGraph : Graph :=
  let (g, b) := (Graph.new 0).addBlock [.node { uid := 1, kind := .invocation, method := some 1 } []]
  (g.addEdge g.entry b .fallThrough).addEdge b g.exit .returnEdge

/-- `f` and `g` with their graphs; the body of `g` is empty. -/
def callerFacts : Facts := (({ program := callerProgram } : Facts).register callerGraph).register (Graph.new 1)

/-- The only call of the program is from `f` to `g`. -/
theorem calls_caller {Y C : MethodId} (h : Calls ⟨callerFacts, {}⟩ Y C) : Y = 0 ∧ C = 1 := by
  obtain ⟨-, G, hG, b, hC⟩ := h
  obtain ⟨blk, hblk, hC⟩ := mem_callees_block hC
  have hmem : C ∈ G.cells.toList.flatMap Block.callees :=
    List.mem_flatMap.mpr ⟨blk, Array.mem_toList_iff.mpr hblk, hC⟩
  -- only `f` and `g` have graphs, and only the block of `f` calls
  unfold callerFacts Facts.register Facts.graph? at hG
  simp only [List.lookup_cons] at hG
  split at hG
  · cases hG
    have hnil : (Graph.new 1).cells.toList.flatMap Block.callees = [] := rfl
    rw [hnil] at hmem
    cases hmem
  · split at hG
    · rename_i hY0
      cases hG
      have hone : callerGraph.cells.toList.flatMap Block.callees = [1] := rfl
      rw [hone] at hmem
      exact ⟨beq_iff_eq.mp hY0, List.mem_singleton.mp hmem⟩
    · cases hG

/-- Two requests for `f`, the first with a limit that cuts off its call of `g`: what the cache
stores is the outcome with no limit. -/
theorem stored_outcome_unlimited_caller :
    (∀ q ∈ [((0 : Int), (0 : MethodId)), (8, 0)], Acc (fun C Y => Calls ⟨callerFacts, {}⟩ Y C) q.2) ∧
      ∀ X v, (cacheAfter callerFacts {} [(0, 0), (8, 0)] {}).get? X = some v →
        ∃ r, v = some r ∧ Unlimited ⟨callerFacts, {}⟩ X r := by
  have hg : Acc (fun C Y => Calls ⟨callerFacts, {}⟩ Y C) 1 :=
    Acc.intro 1 fun C hC => absurd (calls_caller hC).1 (by decide)
  have hf : Acc (fun C Y => Calls ⟨callerFacts, {}⟩ Y C) 0 :=
    Acc.intro 0 fun C hC => (calls_caller hC).2 ▸ hg
  have hacc : ∀ q ∈ [((0 : Int), (0 : MethodId)), (8, 0)], Acc (fun C Y => Calls ⟨callerFacts, {}⟩ Y C) q.2 := by
    simp only [List.mem_cons, List.not_mem_nil, or_false]
    rintro q (rfl | rfl) <;> exact hf
  exact ⟨hacc, stored_outcome_unlimited callerFacts {} _ hacc⟩

end Analysis

end NullGuard
