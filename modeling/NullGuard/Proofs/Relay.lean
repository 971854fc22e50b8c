import NullGuard.Proofs.StraightLine
import NullGuard.Proofs.Serving

/-!
# Hazards relayed along a chain of private callees

A relay is a chain of distinct procedures `M 0, …, M depth` in which each procedure before the
last passes its parameter on to the next one, as the argument bound to the next one's parameter,
and the last one dereferences its parameter (`Relay.body`). Its callees are private, cannot be
overridden and have graphs, so that every call of the chain consults the callee's summary, and
the summaries are computed on demand, each in the session of its caller (`Relay.Wired`).

A request for `M j` from a session where nothing of the rest of the chain is stored or claimed
(`Relay.Fresh`) analyses the chain below `M j` one procedure at a time:

* when the whole chain fits under the call-chain limit, every procedure reports its parameter,
  at the argument it passes on or at the dereference, and is stored (`Relay.resultOf_within`);
* otherwise the request for `M (m + 1)`, made with `m + 1` procedures on the chain, is cut off:
  it is answered with the empty summary and every procedure on the chain is marked, so that each
  of `M j, …, M m` comes back with no hazard and is not stored, and `M (m + 1)` and the
  procedures after it are never analysed (`Relay.resultOf_cut`).

`Relay.reported_iff_within_limit` puts the two together for an analysis of `M 0` from a fresh
session: the hazard on the first parameter is reported, at the argument the first procedure
passes on, exactly when the chain is no longer than the limit.
-/

namespace NullGuard

namespace SummaryCache

variable {κ α : Type} [DecidableEq κ] (c : SummaryCache κ α) (k : κ)

theorem misses_settle (r : Computed α) : (c.settle k r).misses = c.misses := by
  cases r <;> rfl

theorem transients_settle_keep (v : α) : (c.settle k (.keep v)).transients = c.transients :=
  rfl

theorem transients_settle_transient (v : α) : (c.settle k (.transient v)).transients = c.transients + 1 :=
  rfl

theorem store_settle_transient (v : α) : (c.settle k (.transient v)).store = c.store :=
  rfl

end SummaryCache

namespace Session

variable (s : Session) (X : MethodId)

@[simp] theorem cutOff_opened : (s.opened X).cutOff = s.cutOff.erase X := rfl

@[simp] theorem get?_opened (Y : MethodId) : (s.opened X).cache.get? Y = s.cache.get? Y := rfl

@[simp] theorem store_opened : (s.opened X).cache.store = s.cache.store := rfl

@[simp] theorem misses_opened : (s.opened X).cache.misses = s.cache.misses + 1 := rfl

@[simp] theorem transients_opened : (s.opened X).cache.transients = s.cache.transients := rfl

@[simp] theorem cutOff_closed (r : Outcome) : (s.closed X r).cutOff = s.cutOff.erase X := rfl

/-- Closing a procedure gives back the chain it was opened on. -/
theorem chain_closed_of_opened {s t : Session} {X : MethodId} (h : t.chain = (s.opened X).chain) (r : Outcome) :
    (t.closed X r).chain = s.chain := by
  rw [chain_closed, h, chain_opened, List.dropLast_concat]

/-- Closing a procedure gives back the claims it was opened with. -/
theorem claims_closed_of_opened {s t : Session} {X : MethodId} (h : t.cache.claims = (s.opened X).cache.claims)
    (r : Outcome) : (t.closed X r).cache.claims = s.cache.claims := by
  show (t.cache.settle X _).claims = _
  rw [SummaryCache.claims_settle, h, claims_opened, List.erase_cons_head]

theorem cache_closed_of_cut {r : Outcome} (h : s.cutOff.contains X = true) :
    (s.closed X r).cache = s.cache.settle X (.transient (some r)) := by
  unfold closed
  rw [h]
  rfl

theorem cache_closed_of_not_cut {r : Outcome} (h : s.cutOff.contains X = false) :
    (s.closed X r).cache = s.cache.settle X (.keep (some r)) := by
  unfold closed
  rw [h]
  rfl

end Session

/-- A chain of procedures `method 0, …, method depth`, each but the last passing its parameter
`param i` on to the next one as the argument bound to `param (i + 1)`, the last dereferencing
`param depth` through `access`. The other fields are the syntax of each body: its statement, its
call, the argument of the call and the read of the parameter. -/
structure Relay where
  depth : Nat
  method : Nat → MethodId
  param : Nat → ParamRef
  stmt : Nat → OpInfo
  call : Nat → OpInfo
  arg : Nat → OpInfo
  read : Nat → OpInfo
  access : OpInfo

namespace Relay

variable (R : Relay)

/-- The one statement of the body of `method i`. -/
def body (i : Nat) : Operation :=
  if i < R.depth then
    Operation.passing (R.method (i + 1)) (R.param i) (R.param (i + 1)) (R.stmt i) (R.call i) (R.arg i) (R.read i)
  else Operation.dereferencing (R.param i) (R.stmt i) R.access (R.read i)

/-- Where `method i` meets the hazard on its parameter: at the argument it passes on, or, for
the last procedure, at the read it dereferences. -/
def site (i : Nat) : Option Span :=
  if i < R.depth then (R.arg i).span else (R.read i).span

/-- The summary `method i` has when the hazard reaches it: its parameter, at its site. -/
def summary (i : Nat) : UsageMap := ⟨[(R.param i, R.site i)]⟩

/-- The call chain while `method j` is being requested from `method (j - 1)`. -/
def chainTo (j : Nat) : List MethodId := (List.range j).map R.method

theorem body_of_lt {i : Nat} (h : i < R.depth) :
    R.body i =
      Operation.passing (R.method (i + 1)) (R.param i) (R.param (i + 1)) (R.stmt i) (R.call i) (R.arg i) (R.read i) :=
  if_pos h

theorem body_depth : R.body R.depth = Operation.dereferencing (R.param R.depth) (R.stmt R.depth) R.access (R.read R.depth) :=
  if_neg (Nat.lt_irrefl _)

theorem summary_of_lt {i : Nat} (h : i < R.depth) : R.summary i = ⟨[(R.param i, (R.arg i).span)]⟩ := by
  simp [summary, site, h]

theorem summary_depth : R.summary R.depth = ⟨[(R.param R.depth, (R.read R.depth).span)]⟩ := by
  simp [summary, site]

@[simp] theorem contains_summary (i : Nat) : (R.summary i).contains (R.param i) = true := by
  simp [summary, UsageMap.contains]

theorem chainTo_succ (j : Nat) : R.chainTo (j + 1) = R.chainTo j ++ [R.method j] := by
  simp [chainTo, List.range_succ]

@[simp] theorem length_chainTo (j : Nat) : (R.chainTo j).length = j := by
  simp [chainTo]

theorem mem_chainTo {j : Nat} {X : MethodId} : X ∈ R.chainTo j ↔ ∃ i < j, R.method i = X := by
  simp [chainTo]

/-- The facts a relay needs of the program it is in. -/
structure Wired (facts : Facts) (attr : String) : Prop where
  /-- The procedures of the chain are distinct. -/
  distinct : ∀ i ≤ R.depth, ∀ j ≤ R.depth, R.method i = R.method j → i = j
  /-- Each has the straight-line graph of its body. -/
  graph : ∀ i ≤ R.depth, facts.graph? (R.method i) = some (Graph.straightLine (R.method i) [R.body i])
  /-- Each one's parameter is its own, of a reference type, and without the contract. -/
  owner : ∀ i ≤ R.depth, (R.param i).method = R.method i
  reference : ∀ i ≤ R.depth, facts.program.paramIsReference (R.param i) = true
  uncontracted : ∀ i ≤ R.depth, facts.hasContract attr (R.param i) = false
  /-- The callees are private, cannot be overridden and are not nested functions. -/
  hidden : ∀ i ≤ R.depth, 0 < i → (facts.program.method (R.method i)).access = .declaringType
  sealed : ∀ i ≤ R.depth, 0 < i → (facts.program.method (R.method i)).isVirtual = false ∧
    (facts.program.method (R.method i)).isAbstract = false ∧ (facts.program.method (R.method i)).isOverride = false
  unnested : ∀ i ≤ R.depth, 0 < i → facts.program.isNested (R.method i) = false
  /-- No call is a validation idiom: no callee is a member of the string type or of a type
  deriving from the exception type. -/
  plain : ∀ i ≤ R.depth, 0 < i → facts.wellKnownType stringTypeName ≠ some (facts.program.method (R.method i)).owner ∧
    facts.program.derivesFrom (facts.program.method (R.method i)).owner (facts.wellKnownType exceptionTypeName) = false
  /-- No points-to fact is about a parameter, an argument passed on or a read. -/
  unaliased : facts.pointsTo.params = []
  argsUnaliased : ∀ i < R.depth, facts.pointsTo.nodes.lookup (R.arg i).uid = none
  readsUnaliased : ∀ i ≤ R.depth, facts.pointsTo.nodes.lookup (R.read i).uid = none
  /-- No nullability fact makes an argument passed on or the last read non-null. -/
  argsNullable : ∀ i < R.depth, facts.nulls.ofNode (R.arg i).uid ≠ .notNull
  readNullable : facts.nulls.ofNode (R.read R.depth).uid ≠ .notNull
  /-- The last body dereferences its parameter through a member access. -/
  member : R.access.kind.isMemberReference = true

/-- The session a request for `method j` starts from: `method 0, …, method (j - 1)` on the chain,
nothing marked as cut off, and no procedure from `method j` on stored or claimed. -/
structure Fresh (j : Nat) (s : Session) : Prop where
  chain : s.chain = R.chainTo j
  cutOff : s.cutOff = []
  unstored : ∀ i, j ≤ i → i ≤ R.depth → s.cache.get? (R.method i) = none
  unclaimed : ∀ i, j ≤ i → i ≤ R.depth → R.method i ∉ s.cache.claims

/-- What a request for `method j` within the limit leaves: the chain and the claims as they
were, every procedure from `method j` on stored with its summary, every other outcome as it was,
one analysis per procedure, and nothing transient. -/
structure StoredFrom (j : Nat) (s s' : Session) : Prop where
  chain : s'.chain = s.chain
  cutOff : s'.cutOff = []
  stored : ∀ i, j ≤ i → i ≤ R.depth →
    ∃ r, s'.cache.get? (R.method i) = some (some r) ∧ r.usages = R.summary i
  others : ∀ X, (∀ i, j ≤ i → i ≤ R.depth → X ≠ R.method i) → s'.cache.get? X = s.cache.get? X
  claims : s'.cache.claims = s.cache.claims
  misses : s'.cache.misses = s.cache.misses + (R.depth + 1 - j)
  transients : s'.cache.transients = s.cache.transients

/-- What a request for `method j` past the limit `m` leaves: the chain and the claims as they
were, the procedures before `method j` marked as cut off, nothing stored, and one transient
analysis for each of `method j, …, method m`. -/
structure CutFrom (m j : Nat) (s s' : Session) : Prop where
  chain : s'.chain = s.chain
  cutOff : s'.cutOff = R.chainTo j
  store : s'.cache.store = s.cache.store
  claims : s'.cache.claims = s.cache.claims
  misses : s'.cache.misses = s.cache.misses + (m + 1 - j)
  transients : s'.cache.transients = s.cache.transients + (m + 1 - j)

/-- The request a fresh `method j` makes is made with `j + 1` procedures on the chain. -/
theorem Fresh.length_opened {j : Nat} {s : Session} (hf : R.Fresh j s) :
    ((s.opened (R.method j)).chain.length : Int) = j + 1 := by
  rw [Session.chain_opened, hf.chain, List.length_append, length_chainTo, List.length_singleton]
  omega

theorem fresh_empty : R.Fresh 0 {} where
  chain := rfl
  cutOff := rfl
  unstored _ _ _ := rfl
  unclaimed _ _ _ := List.not_mem_nil

/-- Past the last procedure nothing is left to store. -/
theorem storedFrom_self {u : Session} (hu : u.cutOff = []) : R.StoredFrom (R.depth + 1) u u where
  chain := rfl
  cutOff := hu
  stored i hi hid := absurd hi (by omega)
  others _ _ := rfl
  claims := rfl
  misses := by simp
  transients := rfl

/-- A request cut off with `m + 1` procedures on the chain marks all of them. -/
theorem cutFrom_cut (m : Nat) {u : Session} (hu : u.cutOff = []) (hc : u.chain = R.chainTo (m + 1)) :
    R.CutFrom m (m + 1) u { u with cutOff := u.cutOff ++ u.chain.filter (!u.cutOff.contains ·) } where
  chain := rfl
  cutOff := by simp [hu, hc]
  store := rfl
  claims := rfl
  misses := by simp
  transients := by simp

section Wired

variable {R} {facts : Facts} {attr : String} (hw : R.Wired facts attr)
include hw

theorem Wired.method_ne {i j : Nat} (hi : i ≤ R.depth) (hj : j ≤ R.depth) (h : i ≠ j) :
    R.method i ≠ R.method j :=
  fun he => h (hw.distinct i hi j hj he)

theorem Wired.not_mem_chainTo {j : Nat} (hj : j ≤ R.depth) : R.method j ∉ R.chainTo j := by
  rw [mem_chainTo]
  rintro ⟨i, hij, he⟩
  exact hw.method_ne (by omega) hj (by omega) he

theorem Wired.erase_chainTo_succ {j : Nat} (hj : j ≤ R.depth) :
    (R.chainTo (j + 1)).erase (R.method j) = R.chainTo j := by
  rw [chainTo_succ, List.erase_append_right _ (hw.not_mem_chainTo hj), List.erase_cons_head, List.append_nil]

/-- The chain has no more procedures than the program has graphs. -/
theorem Wired.depth_lt_graphs : R.depth < facts.graphs.length := by
  have hnd : ((List.range (R.depth + 1)).map R.method).Nodup :=
    List.nodup_range.map_on fun i hi j hj he =>
      hw.distinct i (by simp at hi; omega) j (by simp at hj; omega) he
  have hsub : (List.range (R.depth + 1)).map R.method ⊆ facts.graphs.map Prod.fst := by
    intro X hX
    obtain ⟨i, hi, rfl⟩ := List.mem_map.mp hX
    exact Analysis.mem_keys_of_graph (by rw [hw.graph i (by simp at hi; omega)]; rfl)
  have hlen := hnd.length_le_of_subset hsub
  simp only [List.length_map, List.length_range] at hlen
  omega

theorem Wired.methodVisible_eq_false {i : Nat} (hi : i ≤ R.depth) (h0 : 0 < i) :
    facts.program.methodVisible (R.method i) = false := by
  simp [Program.methodVisible, hw.hidden i hi h0, Access.isExternal]

/-- Every callee of the chain has its summary consulted. -/
theorem Wired.summarizable (o : Options) {i : Nat} (hi : i ≤ R.depth) (h0 : 0 < i) :
    Analysis.isSummarizable ⟨facts, o⟩ (R.method i) = true := by
  obtain ⟨hv, ha, ho⟩ := hw.sealed i hi h0
  simp [Analysis.isSummarizable, Analysis.Env.prog, hw.unnested i hi h0, hw.methodVisible_eq_false hi h0,
    Program.isOverridable, hv, ha, ho, hw.graph i hi]

theorem Fresh.opened {j : Nat} (hj : j < R.depth) {s : Session} (hf : R.Fresh j s) :
    R.Fresh (j + 1) (s.opened (R.method j)) where
  chain := by rw [Session.chain_opened, hf.chain, chainTo_succ]
  cutOff := by rw [Session.cutOff_opened, hf.cutOff]; rfl
  unstored i hi hid := hf.unstored i (by omega) hid
  unclaimed i hi hid := by
    rw [Session.claims_opened, List.mem_cons, not_or]
    exact ⟨hw.method_ne hid hj.le (by omega), hf.unclaimed i (by omega) hid⟩

/-- A fresh request for a procedure of the chain computes it: it is neither on the chain, nor
stored, nor claimed. -/
theorem run_resultOf_fresh {j : Nat} (hj : j ≤ R.depth) {s : Session} (hf : R.Fresh j s)
    (env : Analysis.Env) (n : Nat) :
    (Analysis.resultOf env (n + 1) (R.method j)).run s =
      (some ((Analysis.analyzeBody env (Analysis.summaryOf env (Analysis.resultOf env n)) (R.method j)).run
          (s.opened (R.method j))).1,
        ((Analysis.analyzeBody env (Analysis.summaryOf env (Analysis.resultOf env n)) (R.method j)).run
          (s.opened (R.method j))).2.closed (R.method j)
          ((Analysis.analyzeBody env (Analysis.summaryOf env (Analysis.resultOf env n)) (R.method j)).run
            (s.opened (R.method j))).1) := by
  rw [Analysis.run_resultOf_succ, if_neg (hf.chain ▸ hw.not_mem_chainTo hj)]
  simp only [hf.unstored j le_rfl hj]
  rw [if_neg (hf.unclaimed j le_rfl hj)]

/-- Closing `method j` after a request within the limit below it stores `method j` too. -/
theorem Wired.storedFrom_close {j : Nat} (hj : j ≤ R.depth) {s t : Session} (hf : R.Fresh j s)
    (ht : R.StoredFrom (j + 1) (s.opened (R.method j)) t) {r : Outcome} (hr : r.usages = R.summary j) :
    R.StoredFrom j s (t.closed (R.method j) r) := by
  have hX : t.cache.get? (R.method j) = none := by
    rw [ht.others _ fun i hi hid => hw.method_ne hj hid (by omega), Session.get?_opened]
    exact hf.unstored j le_rfl hj
  have hc : (t.closed (R.method j) r).cache = t.cache.settle (R.method j) (.keep (some r)) :=
    Session.cache_closed_of_not_cut _ _ (by simp [ht.cutOff])
  constructor
  case chain => exact Session.chain_closed_of_opened ht.chain r
  case cutOff => rw [Session.cutOff_closed, ht.cutOff]; rfl
  case stored =>
    intro i hji hid
    rw [hc]
    rcases Nat.eq_or_lt_of_le hji with rfl | hlt
    · exact ⟨r, SummaryCache.get?_settle_keep _ _ _ hX, hr⟩
    · rw [SummaryCache.get?_settle_ne _ _ (hw.method_ne hid hj (by omega))]
      exact ht.stored i hlt hid
  case others =>
    intro X hne
    rw [hc, SummaryCache.get?_settle_ne _ _ (hne j le_rfl hj),
      ht.others X fun i hi hid => hne i (by omega) hid, Session.get?_opened]
  case claims => exact Session.claims_closed_of_opened ht.claims r
  case misses => rw [hc, SummaryCache.misses_settle, ht.misses, Session.misses_opened]; omega
  case transients => rw [hc, SummaryCache.transients_settle_keep, ht.transients, Session.transients_opened]

/-- Closing `method j` after a request cut off below it leaves `method j` transient. -/
theorem Wired.cutFrom_close {m j : Nat} (hj : j < R.depth) (hjm : j ≤ m) {s t : Session}
    (ht : R.CutFrom m (j + 1) (s.opened (R.method j)) t) (r : Outcome) :
    R.CutFrom m j s (t.closed (R.method j) r) := by
  have hc : (t.closed (R.method j) r).cache = t.cache.settle (R.method j) (.transient (some r)) :=
    Session.cache_closed_of_cut _ _ (by simp [ht.cutOff, chainTo_succ])
  constructor
  case chain => exact Session.chain_closed_of_opened ht.chain r
  case cutOff => rw [Session.cutOff_closed, ht.cutOff, hw.erase_chainTo_succ hj.le]
  case store => rw [hc, SummaryCache.store_settle_transient, ht.store, Session.store_opened]
  case claims => exact Session.claims_closed_of_opened ht.claims r
  case misses => rw [hc, SummaryCache.misses_settle, ht.misses, Session.misses_opened]; omega
  case transients =>
    rw [hc, SummaryCache.transients_settle_transient, ht.transients, Session.transients_opened]; omega

end Wired

section Bodies

variable {R} {facts : Facts} {o : Options} (hw : R.Wired facts o.validatedNotNullAttribute)
  (hb : ∀ X, 3 ≤ Analysis.Env.allowance ⟨facts, o⟩ X)
include hw hb

/-- A procedure before the last reports its parameter, at its argument, exactly when the
summary it gets for the next one lists the next one's parameter. -/
theorem Wired.analyzeBody_of_lt (hi : o.interprocedural = true) {j : Nat} (hj : j < R.depth)
    (f : MethodId → SessionM (Option UsageMap)) (t : Session) :
    ((Analysis.analyzeBody ⟨facts, o⟩ f (R.method j)).run t).1.usages =
        (if ((f (R.method (j + 1))).run t).1.any (·.contains (R.param (j + 1))) then R.summary j
          else UsageMap.empty) ∧
      ((Analysis.analyzeBody ⟨facts, o⟩ f (R.method j)).run t).2 = ((f (R.method (j + 1))).run t).2 := by
  have hg := hw.graph j hj.le
  rw [R.body_of_lt hj] at hg
  obtain ⟨hstr, hexc⟩ := hw.plain (j + 1) hj (by omega)
  obtain ⟨sol, h⟩ := Analysis.analyzeBody_passing ⟨facts, o⟩ f hi (hw.owner j hj.le) (hw.reference j hj.le)
    (hw.uncontracted j hj.le) hw.unaliased (hw.argsUnaliased j hj) (hw.readsUnaliased j hj.le)
    (hw.argsNullable j hj) (hw.unnested (j + 1) hj (by omega)) (hw.methodVisible_eq_false hj (by omega))
    hstr hexc hg (hb _) t
  rw [h, R.summary_of_lt hj]
  exact ⟨rfl, rfl⟩

/-- The last procedure reports its parameter at the read it dereferences, and asks for nothing. -/
theorem Wired.analyzeBody_depth (f : MethodId → SessionM (Option UsageMap)) (t : Session) :
    ((Analysis.analyzeBody ⟨facts, o⟩ f (R.method R.depth)).run t).1.usages = R.summary R.depth ∧
      ((Analysis.analyzeBody ⟨facts, o⟩ f (R.method R.depth)).run t).2 = t := by
  have hg := hw.graph R.depth le_rfl
  rw [R.body_depth] at hg
  obtain ⟨sol, h⟩ := Analysis.analyzeBody_dereferencing ⟨facts, o⟩ f hw.member (hw.owner _ le_rfl)
    (hw.reference _ le_rfl) (hw.uncontracted _ le_rfl) hw.unaliased (hw.readsUnaliased _ le_rfl)
    hw.readNullable hg (hb _) t
  rw [h, R.summary_depth]
  exact ⟨rfl, rfl⟩

end Bodies

section Requests

variable {R} {facts : Facts} {o : Options} (hw : R.Wired facts o.validatedNotNullAttribute)
  (hi : o.interprocedural = true) (hb : ∀ X, 3 ≤ Analysis.Env.allowance ⟨facts, o⟩ X)
include hw hi hb

/-- One level of the chain: a fresh request for `method j`, `j < depth`, whose summary request
for the next procedure is answered with `a`, leaving `t`, reports its parameter exactly when `a`
lists the next one's, and closes `method j` in `t`. -/
theorem Wired.run_resultOf_passing {j n : Nat} (hj : j < R.depth) {s : Session} (hf : R.Fresh j s)
    {a : Option UsageMap} {t : Session}
    (ha : (Analysis.summaryOf ⟨facts, o⟩ (Analysis.resultOf ⟨facts, o⟩ n) (R.method (j + 1))).run
      (s.opened (R.method j)) = (a, t)) :
    ∃ r, (Analysis.resultOf ⟨facts, o⟩ (n + 1) (R.method j)).run s = (some r, t.closed (R.method j) r) ∧
      r.usages = if a.any (·.contains (R.param (j + 1))) then R.summary j else UsageMap.empty := by
  obtain ⟨hu, ht⟩ := hw.analyzeBody_of_lt hb hi hj
    (Analysis.summaryOf ⟨facts, o⟩ (Analysis.resultOf ⟨facts, o⟩ n)) (s.opened (R.method j))
  rw [ha] at hu ht
  rw [run_resultOf_fresh hw hj.le hf]
  exact ⟨_, by rw [ht], hu⟩

/-- Within the limit, a fresh request for `method j` reports its parameter at its site and
stores every procedure from `method j` on. The induction is on the number of procedures below
`method j`. -/
theorem Wired.resultOf_within (hm : (R.depth : Int) ≤ o.maxCallChain) :
    ∀ d j n s, R.depth = j + d → d < n → R.Fresh j s →
      ∃ r s', (Analysis.resultOf ⟨facts, o⟩ n (R.method j)).run s = (some r, s') ∧
        r.usages = R.summary j ∧ R.StoredFrom j s s' := by
  intro d
  induction d with
  | zero =>
    intro j n s hjd hn hf
    obtain ⟨n, rfl⟩ : ∃ n', n = n' + 1 := ⟨n - 1, by omega⟩
    obtain rfl : j = R.depth := by omega
    obtain ⟨hu, ht⟩ := hw.analyzeBody_depth hb (Analysis.summaryOf ⟨facts, o⟩ (Analysis.resultOf ⟨facts, o⟩ n))
      (s.opened (R.method R.depth))
    rw [run_resultOf_fresh hw le_rfl hf]
    refine ⟨_, _, rfl, hu, hw.storedFrom_close le_rfl hf ?_ hu⟩
    rw [ht]
    exact R.storedFrom_self (by simp [hf.cutOff])
  | succ d ih =>
    intro j n s hjd hn hf
    obtain ⟨n, rfl⟩ : ∃ n', n = n' + 1 := ⟨n - 1, by omega⟩
    have hj : j < R.depth := by omega
    obtain ⟨r, t, hres, hr, hst⟩ := ih (j + 1) n (s.opened (R.method j)) (by omega) (by omega) (hf.opened hw hj)
    -- the next procedure is requested with `j + 1` procedures on the chain, which the limit allows
    have hshort : ¬ (((s.opened (R.method j)).chain.length : Int) > o.maxCallChain) := by
      rw [hf.length_opened]
      omega
    obtain ⟨r', hrun, hu⟩ := hw.run_resultOf_passing hi hb hj hf
      (Analysis.run_summaryOf_resolve _ _ _ _ (hw.summarizable o hj (by omega)) hshort hres)
    have hu' : r'.usages = R.summary j := by simp [hu, hr]
    exact ⟨r', _, hrun, hu', hw.storedFrom_close hj.le hf hst hu'⟩

/-- Past the limit `m`, a fresh request for `method j`, `j ≤ m`, reports nothing, stores nothing,
and analyses `method j, …, method m` only. The induction is on the number of procedures between
`method j` and `method m`. -/
theorem Wired.resultOf_cut (m : Nat) (hm : o.maxCallChain = m) (hmd : m < R.depth) :
    ∀ d j n s, m = j + d → d < n → R.Fresh j s →
      ∃ r s', (Analysis.resultOf ⟨facts, o⟩ n (R.method j)).run s = (some r, s') ∧
        r.usages = UsageMap.empty ∧ R.CutFrom m j s s' := by
  intro d
  induction d with
  | zero =>
    intro j n s hjd hn hf
    obtain ⟨n, rfl⟩ : ∃ n', n = n' + 1 := ⟨n - 1, by omega⟩
    obtain rfl : j = m := by omega
    have hf' := hf.opened hw hmd
    -- the next procedure is requested with `m + 1` procedures on the chain: it is cut off
    have hlong : ((s.opened (R.method j)).chain.length : Int) > o.maxCallChain := by
      rw [hf.length_opened, hm]
      omega
    obtain ⟨r', hrun, hu⟩ := hw.run_resultOf_passing hi hb hmd hf
      (Analysis.run_summaryOf_cut _ (Analysis.resultOf ⟨facts, o⟩ n) _ _ (hw.summarizable o hmd (by omega)) hlong
        fun r => by simp [hf'.unstored (j + 1) le_rfl hmd])
    exact ⟨r', _, hrun, by simp [hu, UsageMap.empty, UsageMap.contains],
      hw.cutFrom_close hmd le_rfl (R.cutFrom_cut j hf'.cutOff hf'.chain) r'⟩
  | succ d ih =>
    intro j n s hjd hn hf
    obtain ⟨n, rfl⟩ : ∃ n', n = n' + 1 := ⟨n - 1, by omega⟩
    have hj : j < R.depth := by omega
    obtain ⟨r, t, hres, hr, hst⟩ := ih (j + 1) n (s.opened (R.method j)) (by omega) (by omega) (hf.opened hw hj)
    have hshort : ¬ (((s.opened (R.method j)).chain.length : Int) > o.maxCallChain) := by
      rw [hf.length_opened, hm]
      omega
    obtain ⟨r', hrun, hu⟩ := hw.run_resultOf_passing hi hb hj hf
      (Analysis.run_summaryOf_resolve _ _ _ _ (hw.summarizable o hj (by omega)) hshort hres)
    exact ⟨r', _, hrun, by simp [hu, hr, UsageMap.empty, UsageMap.contains], hw.cutFrom_close hj (by omega) hst r'⟩

end Requests

/-- Along a relay, the first parameter is reported exactly when the chain has at most `m`
callees. -/
theorem reported_iff_within_limit (R : Relay) (facts : Facts) (o : Options) (m : Nat)
    (hw : R.Wired facts o.validatedNotNullAttribute) (hd : 0 < R.depth) (hi : o.interprocedural = true)
    (hm : o.maxCallChain = m) (hb : 3 ≤ o.maxIterations) (hs : o.maxSeconds = none) :
    ((Analysis.analyze ⟨facts, o⟩ (R.method 0)).run {}).1.usages =
        (if R.depth ≤ m then ⟨[(R.param 0, (R.arg 0).span)]⟩ else UsageMap.empty) ∧
      (R.depth ≤ m →
        (∀ i ≤ R.depth, ∃ r, ((Analysis.analyze ⟨facts, o⟩ (R.method 0)).run {}).2.cache.get? (R.method i) =
          some (some r) ∧ r.usages = R.summary i) ∧
        ((Analysis.analyze ⟨facts, o⟩ (R.method 0)).run {}).2.cache.misses = R.depth + 1) ∧
      (m < R.depth →
        ((Analysis.analyze ⟨facts, o⟩ (R.method 0)).run {}).2.cache.store = [] ∧
        ((Analysis.analyze ⟨facts, o⟩ (R.method 0)).run {}).2.cache.misses = m + 1 ∧
        ((Analysis.analyze ⟨facts, o⟩ (R.method 0)).run {}).2.cache.transients = m + 1) := by
  have hfuel : R.depth < facts.graphs.length + 1 := by
    have := hw.depth_lt_graphs
    omega
  -- with no time budget, every procedure is allowed the whole visit budget
  have hallow : ∀ X, 3 ≤ Analysis.Env.allowance ⟨facts, o⟩ X := fun X => by
    simp only [Analysis.Env.allowance, Analysis.Env.budget, Dataflow.allowance, hs]
    omega
  rw [Analysis.analyze_run]
  by_cases hdm : R.depth ≤ m
  · obtain ⟨r, s', hres, hr, hst⟩ :=
      hw.resultOf_within hi hallow (by omega) R.depth 0 (facts.graphs.length + 1) {} (by omega) hfuel
        R.fresh_empty
    rw [hres]
    refine ⟨?_, fun _ => ⟨fun i hid => hst.stored i (Nat.zero_le i) hid, ?_⟩, fun h => absurd h (by omega)⟩
    · simp [hdm, hr, R.summary_of_lt hd]
    · simpa using hst.misses
  · obtain ⟨r, s', hres, hr, hst⟩ :=
      hw.resultOf_cut hi hallow m hm (by omega) m 0 (facts.graphs.length + 1) {} (by omega)
        (by omega) R.fresh_empty
    rw [hres]
    refine ⟨by simp [hdm, hr], fun h => absurd h hdm, fun _ => ⟨hst.store, ?_, ?_⟩⟩
    · simpa using hst.misses
    · simpa using hst.transients

/-- `Top(p)` calls `Mid(p)`, `Mid(q)` calls `Deep(q)`, and `Deep(r)` reads `r.Length`. -/
def topMidDeep : Relay where
  depth := 2
  method i := i
  param i := ⟨i, 0⟩
  stmt i := { uid := 10 * i + 1, kind := .expressionStatement }
  call i := { uid := 10 * i + 2, kind := .invocation }
  arg i := { uid := 10 * i + 3, kind := .argument, span := some { start := 100 * i + 3 } }
  read i := { uid := 10 * i + 4, kind := .parameterReference, span := some { start := 100 * i + 4 } }
  access := { uid := 40, kind := .propertyReference, name := "Length" }

/-- The standard types and a class holding `Top` and the private `Mid` and `Deep`, each with
the graph of its body. -/
def topMidDeepFacts : Facts where
  program :=
    { types := standardTypes.toArray.push { name := "Holder" }
      methods := #[{ name := "Top", owner := 3, params := [{ name := "p", type := 3 }] },
        { name := "Mid", owner := 3, params := [{ name := "q", type := 3 }], access := .declaringType },
        { name := "Deep", owner := 3, params := [{ name := "r", type := 3 }], access := .declaringType }] }
  graphs := (List.range 3).map fun i => (i, Graph.straightLine i [topMidDeep.body i])

theorem wired_topMidDeep : topMidDeep.Wired topMidDeepFacts "ValidatedNotNullAttribute" where
  distinct := by decide
  graph i hi := by
    obtain rfl | rfl | rfl : i = 0 ∨ i = 1 ∨ i = 2 := by
      change i ≤ 2 at hi
      omega
    all_goals rfl
  owner := by decide
  reference := by decide
  uncontracted := by decide
  hidden := by decide
  sealed := by decide
  unnested := by decide
  plain := by decide
  unaliased := rfl
  argsUnaliased := by decide
  readsUnaliased := by decide
  argsNullable := by decide
  readNullable := by decide
  member := rfl

/-- With one callee allowed on the chain, the analysis of `Top` reports nothing, stores nothing,
and analyses `Top` and `Mid` only, both with transient outcomes. -/
theorem reported_iff_within_limit_topMidDeep :
    topMidDeep.Wired topMidDeepFacts "ValidatedNotNullAttribute" ∧
      ((Analysis.analyze ⟨topMidDeepFacts, { maxCallChain := 1 }⟩ 0).run {}).1.usages = UsageMap.empty ∧
      ((Analysis.analyze ⟨topMidDeepFacts, { maxCallChain := 1 }⟩ 0).run {}).2.cache.store = [] ∧
      ((Analysis.analyze ⟨topMidDeepFacts, { maxCallChain := 1 }⟩ 0).run {}).2.cache.misses = 2 ∧
      ((Analysis.analyze ⟨topMidDeepFacts, { maxCallChain := 1 }⟩ 0).run {}).2.cache.transients = 2 := by
  obtain ⟨hu, -, hcut⟩ := reported_iff_within_limit topMidDeep topMidDeepFacts { maxCallChain := 1 } 1
    wired_topMidDeep (by decide) rfl rfl (by decide) rfl
  obtain ⟨hs, hm, ht⟩ := hcut (by decide)
  have h0 : topMidDeep.method 0 = 0 := rfl
  rw [h0] at hu hs hm ht
  exact ⟨wired_topMidDeep, hu.trans (if_neg (by decide)), hs, hm, ht⟩

end Relay

end NullGuard
