import NullGuard.Proofs.Serving

/-!
# The call chain mirrors the analyses in progress

While a procedure's body is analysed, the call chain lists the procedures whose analyses are in
progress, outermost first and each once; the cache claims exactly these, last entered first;
and every procedure marked as cut off is on the chain (`Session.Mirrors`). Entering a
procedure, leaving it, a cut-off and a request served from the cache each keep this, so every
request does (`Analysis.resultOf_mirrors`).

A request from outside starts from an empty chain with no marks, and leaves one again
(`Analysis.analyze_fresh`). A host that keeps one session for all its requests
(`Analysis.analyzeEach`) therefore gets the answers and the cache of one that starts each
request afresh, sharing only the cache (`Analysis.run_analyzeEach`).
-/

namespace NullGuard

namespace Session

/-- The cut-off marks of a session are distinct procedures of its call chain, itself without
repeats. -/
structure Marks (s : Session) : Prop where
  nodup : s.chain.Nodup
  cutNodup : s.cutOff.Nodup
  onChain : ∀ Y ∈ s.cutOff, Y ∈ s.chain

/-- A session mirrors its call chain when, besides, the cache claims exactly its procedures. -/
structure Mirrors (s : Session) : Prop extends s.Marks where
  claims : s.cache.claims = s.chain.reverse

theorem eq_fresh {t : Session} (hch : t.chain = []) (hcut : t.cutOff = []) : t = { cache := t.cache } := by
  obtain ⟨c, ch, cut⟩ := t
  subst hch hcut
  rfl

namespace Marks

theorem fresh (c : OutcomeCache) : Marks { cache := c } :=
  ⟨List.nodup_nil, List.nodup_nil, fun _ h => nomatch h⟩

theorem withCache {s : Session} (h : s.Marks) (c : OutcomeCache) : Marks { s with cache := c } :=
  ⟨h.nodup, h.cutNodup, h.onChain⟩

theorem cut {s : Session} (h : s.Marks) :
    Marks { s with cutOff := s.cutOff ++ s.chain.filter (!s.cutOff.contains ·) } where
  nodup := h.nodup
  cutNodup := Analysis.nodup_cutOff_cut h.nodup h.cutNodup
  onChain Y hY := by
    rcases List.mem_append.mp hY with hY | hY
    · exact h.onChain Y hY
    · exact List.mem_of_mem_filter hY

theorem opened {s : Session} {X : MethodId} (h : s.Marks) (hX : X ∉ s.chain) : (s.opened X).Marks where
  nodup := by
    rw [chain_opened, ← List.concat_eq_append]
    exact h.nodup.concat hX
  cutNodup := h.cutNodup.erase X
  onChain Y hY := List.mem_append_left _ (h.onChain Y (List.mem_of_mem_erase hY))

theorem closed {t : Session} {ch : List MethodId} {X : MethodId} (h : t.Marks) (ht : t.chain = ch ++ [X])
    (r : Outcome) : (t.closed X r).Marks := by
  have hnd : (ch.concat X).Nodup := by
    rw [List.concat_eq_append, ← ht]
    exact h.nodup
  rw [List.nodup_concat] at hnd
  refine ⟨?_, h.cutNodup.erase X, fun Y hY => ?_⟩
  · rw [chain_closed, ht, List.dropLast_concat]
    exact hnd.2
  · -- the mark of `X` goes, and every other mark is on the rest of the chain
    obtain ⟨hne, hY⟩ := h.cutNodup.mem_erase_iff.mp hY
    have hon := h.onChain Y hY
    rw [ht, List.mem_append, List.mem_singleton] at hon
    rw [chain_closed, ht, List.dropLast_concat]
    exact hon.resolve_right hne

theorem cutOff_eq_nil {s : Session} (h : s.Marks) (hch : s.chain = []) : s.cutOff = [] :=
  List.eq_nil_iff_forall_not_mem.mpr fun Y hY => by simpa [hch] using h.onChain Y hY

end Marks

theorem Mirrors.opened {s : Session} {X : MethodId} (h : s.Mirrors) (hX : X ∉ s.chain) : (s.opened X).Mirrors :=
  ⟨h.toMarks.opened hX, by simp [h.claims]⟩

end Session

namespace Analysis

variable (env : Env)

theorem resultOf_marks : ∀ (n : Nat) (X : MethodId) (s : Session), s.Marks → ((resultOf env n X).run s).2.Marks
  | 0, _, _, hs => hs
  | n + 1, X, s, hs => by
    rw [run_resultOf_succ]
    by_cases hX : X ∈ s.chain
    · rw [if_pos hX]
      exact hs
    · rw [if_neg hX]
      cases hg : s.cache.get? X with
      | some v => exact hs.withCache _
      | none =>
        by_cases hcl : X ∈ s.cache.claims
        · rw [if_pos hcl]
          exact hs.withCache _
        · rw [if_neg hcl]
          -- the body runs with `X` last on the chain, and its requests keep the marks
          let I := fun t : Session => t.Marks ∧ t.chain = s.chain ++ [X]
          have hbody := analyzeBody_keeps env I _ X
            (summaryOf_keeps env I _ (fun t ht => ⟨ht.1.cut, ht.2⟩) fun c t ht =>
              ⟨resultOf_marks n c t ht.1, (resultOf_chain env n c t).trans ht.2⟩)
            (s.opened X) ⟨hs.opened hX, rfl⟩
          exact hbody.1.closed hbody.2 _

/-- Every request keeps a session mirroring its chain. -/
theorem resultOf_mirrors (n : Nat) (X : MethodId) (s : Session) (hs : s.Mirrors) :
    ((resultOf env n X).run s).2.Mirrors :=
  ⟨resultOf_marks env n X s hs.toMarks, by rw [resultOf_claims env n X s hs.claims, resultOf_chain]⟩

theorem summaryOf_mirrors (n : Nat) (c : MethodId) (t : Session) (ht : t.Mirrors) :
    ((summaryOf env (resultOf env n) c).run t).2.Mirrors ∧ ((summaryOf env (resultOf env n) c).run t).2.chain = t.chain :=
  summaryOf_keeps env (fun u => u.Mirrors ∧ u.chain = t.chain) _
    (fun _ hu => ⟨⟨hu.1.toMarks.cut, hu.1.claims⟩, hu.2⟩)
    (fun c u hu => ⟨resultOf_mirrors env n c u hu.1, (resultOf_chain env n c u).trans hu.2⟩) c t ⟨ht, rfl⟩

/-- A request from outside leaves an empty chain with no marks. -/
theorem analyze_fresh (p : MethodId) (c : OutcomeCache) :
    ((analyze env p).run { cache := c }).2 = { cache := ((analyze env p).run { cache := c }).2.cache } := by
  rw [analyze_run]
  have hch := resultOf_chain env (env.facts.graphs.length + 1) p { cache := c }
  have hmk := resultOf_marks env (env.facts.graphs.length + 1) p { cache := c } (Session.Marks.fresh c)
  exact Session.eq_fresh hch (hmk.cutOff_eq_nil hch)

/-- Requests from outside made in order within one session. -/
def analyzeEach (ps : List MethodId) : SessionM (List Outcome) :=
  ps.mapM (analyze env)

/-- One session for all requests answers as a fresh session, sharing the cache, for each. -/
theorem run_analyzeEach (facts : Facts) (options : Options) :
    ∀ (ps : List MethodId) (c : OutcomeCache), (analyzeEach ⟨facts, options⟩ ps).run { cache := c } =
      ((runMethods facts options ps c).1.map Step.outcome, { cache := (runMethods facts options ps c).2 })
  | [], _ => rfl
  | p :: ps, c => by
    unfold analyzeEach
    rw [List.mapM_cons, StateT.run_bind]
    rcases h : (analyze ⟨facts, options⟩ p).run { cache := c } with ⟨out, t⟩
    -- the first request leaves a fresh session, from which the rest run as from outside
    have ht : t = { cache := t.cache } := by
      have := analyze_fresh ⟨facts, options⟩ p c
      rwa [h] at this
    have hrest := run_analyzeEach facts options ps t.cache
    unfold analyzeEach at hrest
    simp only [runMethods, h]
    rw [ht]
    show StateT.run (List.mapM (analyze ⟨facts, options⟩) ps >>= fun l => pure (out :: l)) { cache := t.cache } = _
    rw [StateT.run_bind, hrest]
    rfl

/-- The call chain mirrors the analyses in progress, whenever a body is analysed. -/
theorem chain_mirrors_in_progress :
    (∀ n X (s : Session), s.Mirrors →
      ((resultOf env n X).run s).2.Mirrors ∧ ((resultOf env n X).run s).2.chain = s.chain) ∧
    (∀ n X (s : Session), s.Mirrors → X ∉ s.chain →
      ((s.opened X).Mirrors ∧ (s.opened X).chain = s.chain ++ [X]) ∧
      ∀ c (t : Session), t.Mirrors → t.chain = s.chain ++ [X] →
        ((summaryOf env (resultOf env n) c).run t).2.Mirrors ∧
          ((summaryOf env (resultOf env n) c).run t).2.chain = s.chain ++ [X]) ∧
    (∀ (c : OutcomeCache) p, c.claims = [] →
      ((analyze env p).run { cache := c }).2.chain = [] ∧ ((analyze env p).run { cache := c }).2.cutOff = [] ∧
        ((analyze env p).run { cache := c }).2.cache.claims = []) ∧
    (∀ (c : OutcomeCache) ps, (analyzeEach env ps).run { cache := c } =
      ((runMethods env.facts env.options ps c).1.map Step.outcome,
        { cache := (runMethods env.facts env.options ps c).2 })) := by
  refine ⟨fun n X s hs => ⟨resultOf_mirrors env n X s hs, resultOf_chain env n X s⟩,
    fun n X s hs hX => ⟨⟨hs.opened hX, rfl⟩, fun c t ht hch => ?_⟩, fun c p hcl => ?_,
    fun c ps => run_analyzeEach env.facts env.options ps c⟩
  · obtain ⟨hm, hch'⟩ := summaryOf_mirrors env n c t ht
    exact ⟨hm, hch'.trans hch⟩
  · -- a session with a cache claiming nothing mirrors its empty chain
    have hfresh : Session.Mirrors { cache := c } := ⟨Session.Marks.fresh c, by simp [hcl]⟩
    have hm := resultOf_mirrors env (env.facts.graphs.length + 1) p _ hfresh
    have hch := resultOf_chain env (env.facts.graphs.length + 1) p { cache := c }
    rw [analyze_run]
    exact ⟨hch, hm.toMarks.cutOff_eq_nil hch, by rw [hm.claims, hch]; rfl⟩

end Analysis

end NullGuard
