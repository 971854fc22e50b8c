import NullGuard.Proofs.Trace
import NullGuard.Proofs.Reachability
import NullGuard.Proofs.Wiring

/-!
# Without cycles, the worklist solver is a single pass

When the reachable part of a coherent graph has no cycle, reverse post-order is a one-pass
order (`OnePassOrder`): every edge out of a listed block goes to a later one, and every block
after the entry is the target of an edge from an earlier one. The worklist then pops the ranks
`0, 1, 2, …` in turn, each once: the invariant `Visiting k` says that the ranks below `k` were
visited and nothing else, and that the worklist holds, in increasing order, exactly the ranks
from `k` on that the entry or an edge out of a visited block leads to. Since every visit is a
first visit, each one queues the successors of its block, all of a later rank, so `k` itself
is queued and is the smallest rank queued.

* `run_visiting`: in any monad and with any transfer, the run is the plain loop `singlePass` over
  the ranks in order, which visits each once and ignores the worklist;
* `trace_visiting`: with a pure transfer, the visits are the blocks of reverse post-order;
* `Settled.foldl`: in the plain loop with a pure transfer, the input of a block is the join of
  the final outputs of its predecessors, since these all come earlier (`input_record`);
* `solve_onePass`: the solver on such a graph, with a budget of at least the number of reachable
  blocks, answers after one visit per reachable block (`OnePass`).

A height that grows along every reachable edge shows that a graph has no cycle
(`acyclicFromEntry_of_height`); the diamond is such a graph.
-/

namespace NullGuard.Dataflow

variable {L : Type}

/-! ### One-pass orders -/

/-- An order in which a single pass settles every block: the entry is listed, every edge out of
a listed block goes to a later one, every block after the entry is the target of an edge from an
earlier one, and the predecessors of a listed block that are listed come earlier. -/
structure OnePassOrder (g : Graph) (order : Array BlockId) : Prop where
  pos : 0 < order.size
  forward : ∀ r < order.size, ∀ s ∈ g.succBlocks (blockAt g order r),
    ∃ rs, rankIn order s = some rs ∧ r < rs
  reached : ∀ k, 0 < k → k < order.size →
    ∃ r < k, ∃ s ∈ g.succBlocks (blockAt g order r), rankIn order s = some k
  back : ∀ r < order.size, ∀ p ∈ g.predBlocks (blockAt g order r), ∀ pr,
    rankIn order p = some pr → pr < r

/-- In a list without repeats, of two elements listed in order, the first has the smaller
rank. -/
theorem rankIn_lt_of_sublist {l : List BlockId} (hnd : l.Nodup) {u v : BlockId} (h : [u, v].Sublist l) :
    ∃ ru rv, rankIn l.toArray u = some ru ∧ rankIn l.toArray v = some rv ∧ ru < rv := by
  obtain ⟨r₁, r₂, rfl, hu, hv⟩ := List.cons_sublist_iff.mp h
  have hv : v ∈ r₂ := by simpa using hv
  have hvr₁ : v ∉ r₁ := fun hv₁ => List.disjoint_of_nodup_append hnd hv₁ hv
  -- `u` is found in the first part, `v` only after it
  obtain ⟨ru, hru⟩ := Option.isSome_iff_exists.mp
    (List.findIdx?_isSome.trans (List.any_eq_true.mpr ⟨u, hu, by simp⟩) : (r₁.findIdx? (· == u)).isSome)
  obtain ⟨rv, hrv⟩ := Option.isSome_iff_exists.mp
    (List.findIdx?_isSome.trans (List.any_eq_true.mpr ⟨v, hv, by simp⟩) : (r₂.findIdx? (· == v)).isSome)
  have hnone : r₁.findIdx? (· == v) = none :=
    List.findIdx?_eq_none_iff.mpr fun x hx => by
      rw [beq_eq_false_iff_ne]
      rintro rfl
      exact hvr₁ hx
  refine ⟨ru, rv + r₁.length, ?_, ?_, ?_⟩
  · simp [rankIn, List.findIdx?_append, hru]
  · simp [rankIn, List.findIdx?_append, hnone, hrv]
  · have := (List.findIdx?_eq_some_iff_getElem.mp hru).1
    omega

section Order

variable {g : Graph} (hg : g.Coherent) (hacyc : g.AcyclicFromEntry)
include hg

/-- A block of reverse post-order is reachable, and a reachable block has a rank. -/
private theorem rankIn_isSome_iff (b : BlockId) :
    (rankIn g.reversePostorder.toArray b).isSome ↔ g.Reaches g.entry b := by
  constructor
  · intro h
    obtain ⟨r, hr⟩ := Option.isSome_iff_exists.mp h
    exact (ranking_reversePostorder g).reach b (Array.mem_of_getElem? (getElem?_of_rankIn hr))
  · intro h
    have hmem : b ∈ g.reversePostorder.toArray := by simpa using hg.mem_reversePostorder h
    obtain ⟨r, hr⟩ := rankIn_of_mem hmem
    rw [hr]
    rfl

theorem depthFirstOrder_reversePostorder : g.DepthFirstOrder g.reversePostorder :=
  ⟨fun _ => ⟨Graph.reaches_of_mem_reversePostorder, hg.mem_reversePostorder⟩, Graph.reversePostorder_nodup g,
    Graph.reversePostorder_head g, fun _ _ hu hv => Graph.reversePostorder_edge hg.ordinal_inj hu hv⟩

include hacyc

private theorem forward_reversePostorder {r : Nat} (hr : r < g.reversePostorder.toArray.size) {s : BlockId}
    (hs : s ∈ g.succBlocks (blockAt g g.reversePostorder.toArray r)) :
    ∃ rs, rankIn g.reversePostorder.toArray s = some rs ∧ r < rs := by
  obtain ⟨-, hmem, hrank⟩ := blockAt_spec (ranking_reversePostorder g) hr
  have hu := (ranking_reversePostorder g).reach _ hmem
  -- the edge goes forward in a topological order
  have hsub := (depthFirstOrder_reversePostorder hg).topological hacyc hu hs
  obtain ⟨ru, rs, hru, hrs, hlt⟩ := rankIn_lt_of_sublist (Graph.reversePostorder_nodup g) hsub
  rw [hrank] at hru
  cases hru
  exact ⟨rs, hrs, hlt⟩

/-- On a coherent graph whose reachable part has no cycle, reverse post-order is a one-pass
order. -/
theorem onePassOrder_reversePostorder : OnePassOrder g g.reversePostorder.toArray where
  pos := by
    have h := (ranking_reversePostorder g).entry
    exact (Array.getElem?_eq_some_iff.mp h).1
  forward _ hr _ hs := forward_reversePostorder hg hacyc hr hs
  reached k hk hkn := by
    obtain ⟨-, hmem, hrank⟩ := blockAt_spec (ranking_reversePostorder g) hkn
    have hb := (ranking_reversePostorder g).reach _ hmem
    -- the block is not the entry, so its path from the entry ends with an edge
    have hne : blockAt g g.reversePostorder.toArray k ≠ g.entry := by
      intro heq
      have h0 := rankIn_of_getElem? (ranking_reversePostorder g).nodup (ranking_reversePostorder g).entry
      rw [← heq, hrank] at h0
      cases h0
      exact Nat.lt_irrefl 0 hk
    obtain ⟨p, hp, hpb⟩ := (Relation.ReflTransGen.cases_tail hb).resolve_left hne
    obtain ⟨rp, hrp⟩ := Option.isSome_iff_exists.mp ((rankIn_isSome_iff hg p).mpr hp)
    have hpk : blockAt g g.reversePostorder.toArray rp = p := blockAt_of_getElem? (getElem?_of_rankIn hrp)
    obtain ⟨rs, hrs, hlt⟩ := forward_reversePostorder hg hacyc (lt_of_rankIn hrp) (s := blockAt g _ k)
      (by rw [hpk]; exact hpb)
    rw [hrank] at hrs
    cases hrs
    exact ⟨rp, hlt, _, by rw [hpk]; exact hpb, hrank⟩
  back r hr p hp pr hpr := by
    obtain ⟨-, hmem, hrank⟩ := blockAt_spec (ranking_reversePostorder g) hr
    have hpk : blockAt g g.reversePostorder.toArray pr = p := blockAt_of_getElem? (getElem?_of_rankIn hpr)
    have hpreach : g.Reaches g.entry p := (rankIn_isSome_iff hg p).mp (by rw [hpr]; rfl)
    -- a listed predecessor lists the block as a successor, and that edge goes forward
    have hsucc := hg.pred_succ p _ hpreach ((ranking_reversePostorder g).reach _ hmem) hp
    obtain ⟨rs, hrs, hlt⟩ := forward_reversePostorder hg hacyc (lt_of_rankIn hpr) (s := blockAt g _ r)
      (by rw [hpk]; exact hsucc)
    rw [hrank] at hrs
    cases hrs
    exact hlt

end Order

/-! ### The worklist stays increasing -/

theorem pairwise_enqueue (r : Nat) : ∀ {w : List Nat}, w.Pairwise (· < ·) → (enqueue r w).Pairwise (· < ·)
  | [], _ => List.pairwise_singleton _ r
  | x :: xs, h => by
    rw [List.pairwise_cons] at h
    unfold enqueue
    split
    · rename_i hrx
      exact List.pairwise_cons.mpr ⟨fun y hy => by
        rcases List.mem_cons.mp hy with rfl | hy
        · exact hrx
        · exact Nat.lt_trans hrx (h.1 y hy), List.pairwise_cons.mpr h⟩
    · split
      · exact List.pairwise_cons.mpr h
      · rename_i hrx hne
        -- `r` lands after `x`, and so does everything already after `x`
        have hxr : x < r := by simp at hne; omega
        refine List.pairwise_cons.mpr ⟨fun y hy => ?_, pairwise_enqueue r h.2⟩
        rcases mem_enqueue.mp hy with rfl | hy
        · exact hxr
        · exact h.1 y hy

theorem pairwise_requeue (order : Array BlockId) :
    ∀ (succs : List BlockId) {w : List Nat}, w.Pairwise (· < ·) → (requeue order succs w).Pairwise (· < ·)
  | [], _, h => h
  | s :: succs, w, h => by
    unfold requeue
    rw [List.foldl_cons]
    -- a successor with a rank is enqueued, one without is skipped
    cases rankIn order s with
    | some sr => exact pairwise_requeue order succs (pairwise_enqueue sr h)
    | none => exact pairwise_requeue order succs h

/-! ### The worklist pops the ranks in order -/

/-- Between visits of a single pass: the ranks below `k` were visited and no other, and the
worklist holds, in increasing order, the ranks from `k` on that the entry (rank `0`) or an edge
out of a visited block leads to. -/
structure Visiting (g : Graph) (order : Array BlockId) (k : Nat) (st : Progress L) : Prop where
  le_size : k ≤ order.size
  ins_size : st.ins.size = order.size
  outs_size : st.outs.size = order.size
  outAt_isSome : ∀ r, (st.outAt r).isSome ↔ r < k
  sorted : st.work.Pairwise (· < ·)
  mem_work : ∀ x, x ∈ st.work ↔
    k ≤ x ∧ (x = 0 ∨ ∃ r < k, ∃ s ∈ g.succBlocks (blockAt g order r), rankIn order s = some x)

section Visiting

variable {g : Graph} {order : Array BlockId}

theorem visiting_start : Visiting g order 0 (Progress.start order.size : Progress L) where
  le_size := Nat.zero_le _
  ins_size := by simp [Progress.start]
  outs_size := by simp [Progress.start]
  outAt_isSome r := by simp
  sorted := List.pairwise_singleton _ 0
  mem_work x := by simp [Progress.start]

variable {k : Nat} {st : Progress L}

/-- Below the next rank, the worklist holds the queued ranks above it. -/
theorem Visiting.mem_rest (hv : Visiting g order k st) {rest : List Nat} (hw : st.work = k :: rest) (x : Nat) :
    x ∈ rest ↔ k + 1 ≤ x ∧ (x = 0 ∨ ∃ r < k, ∃ s ∈ g.succBlocks (blockAt g order r), rankIn order s = some x) := by
  have hsorted := hv.sorted
  rw [hw, List.pairwise_cons] at hsorted
  constructor
  · intro hx
    exact ⟨hsorted.1 x hx, ((hv.mem_work x).mp (by rw [hw]; exact List.mem_cons_of_mem _ hx)).2⟩
  · rintro ⟨hkx, hx⟩
    have hmem := (hv.mem_work x).mpr ⟨Nat.le_of_succ_le hkx, hx⟩
    rw [hw] at hmem
    exact (List.mem_cons.mp hmem).resolve_left (Nat.ne_of_gt hkx)

variable (hO : OnePassOrder g order)
include hO

/-- The next rank to visit is at the head of the worklist: it is queued, and every rank queued
is at least it. -/
theorem Visiting.head (hv : Visiting g order k st) (hk : k < order.size) : ∃ rest, st.work = k :: rest := by
  have hmem : k ∈ st.work := by
    rw [hv.mem_work]
    refine ⟨Nat.le_refl k, ?_⟩
    rcases Nat.eq_zero_or_pos k with h | h
    · exact .inl h
    · exact .inr (hO.reached k h hk)
  cases hw : st.work with
  | nil => rw [hw] at hmem; cases hmem
  | cons x rest =>
    have hsorted := hv.sorted
    rw [hw, List.pairwise_cons] at hsorted
    have hkx : k ≤ x := ((hv.mem_work x).mp (by rw [hw]; exact List.mem_cons_self)).1
    rw [hw] at hmem
    rcases List.mem_cons.mp hmem with rfl | hrest
    · exact ⟨rest, rfl⟩
    · exact absurd (hsorted.1 k hrest) (Nat.not_lt.mpr hkx)

/-- Once every rank is visited, the worklist is empty. -/
theorem Visiting.work_nil (hv : Visiting g order order.size st) : st.work = [] := by
  cases hw : st.work with
  | nil => rfl
  | cons x rest =>
    have hx := (hv.mem_work x).mp (by rw [hw]; exact List.mem_cons_self)
    rcases hx with ⟨hle, rfl | ⟨_, _, s, _, hs⟩⟩
    · exact absurd hle (Nat.not_le.mpr hO.pos)
    · exact absurd (lt_of_rankIn hs) (Nat.not_lt.mpr hle)

omit hO in
theorem changed_of_outAt {d : Domain L} {r : Nat} {out : L} (h : st.outAt r = none) : st.changed d r out = true := by
  unfold Progress.changed
  unfold Progress.outAt at h
  rw [h]

/-- A visit of the next rank, whatever its input and output, is a first visit: it queues the
successors of its block, all of later ranks. -/
theorem Visiting.advance (hv : Visiting g order k st) (hk : k < order.size) {rest : List Nat}
    (hw : st.work = k :: rest) (d : Domain L) (merged out : L) :
    Visiting g order (k + 1) (st.advance g d order k rest merged out) := by
  have hnone : st.outAt k = none := Option.not_isSome_iff_eq_none.mp fun h =>
    Nat.lt_irrefl k ((hv.outAt_isSome k).mp h)
  have hchanged : st.changed d k out = true := changed_of_outAt hnone
  have hsorted := hv.sorted
  rw [hw, List.pairwise_cons] at hsorted
  refine ⟨hk, by simp [hv.ins_size], by simp [hv.outs_size], fun r => ?_, ?_, fun x => ?_⟩
  · rw [Progress.outAt_advance (hv.outs_size ▸ hk)]
    by_cases hr : r = k
    · simp [hr]
    · rw [if_neg hr, hv.outAt_isSome]
      omega
  · unfold Progress.advance
    rw [if_pos hchanged]
    exact pairwise_requeue order _ hsorted.2
  · rw [Progress.mem_work_advance, hv.mem_rest hw, hchanged]
    constructor
    · rintro (⟨hkx, rfl | ⟨r, hr, hr'⟩⟩ | ⟨-, s, hs, hsx⟩)
      · exact ⟨hkx, .inl rfl⟩
      · exact ⟨hkx, .inr ⟨r, Nat.lt_succ_of_lt hr, hr'⟩⟩
      · obtain ⟨rs, hrs, hlt⟩ := hO.forward k hk s hs
        rw [hsx] at hrs
        cases hrs
        exact ⟨hlt, .inr ⟨k, Nat.lt_succ_self k, s, hs, hsx⟩⟩
    · rintro ⟨hkx, rfl | ⟨r, hr, s, hs, hsx⟩⟩
      · exact .inl ⟨hkx, .inl rfl⟩
      · rcases Nat.lt_succ_iff_lt_or_eq.mp hr with hr | rfl
        · exact .inl ⟨hkx, .inr ⟨r, hr, s, hs, hsx⟩⟩
        · exact .inr ⟨rfl, s, hs, hsx⟩

end Visiting

/-! ### The single pass -/

/-- The state after a visit of rank `r` in a single pass: its input and output recorded, the
worklist left alone. -/
def Progress.record (st : Progress L) (r : Nat) (merged out : L) : Progress L :=
  { st with
      ins := st.ins.set! r (some merged), outs := st.outs.set! r (some out), iterations := st.iterations + 1 }

/-- One visit of a single pass: join into the input of the block of rank `r` the outputs found
so far, run the transfer, and record both. -/
def passStep {m : Type → Type} [Monad m] (g : Graph) (d : Domain L) (transfer : BlockId → L → m L)
    (seed : L) (order : Array BlockId) (st : Progress L) (r : Nat) : m (Progress L) := do
  let merged := st.input g d seed order r
  let out ← transfer (blockAt g order r) merged
  pure (st.record r merged out)

/-- The single pass over reverse post-order: each rank visited once, in increasing order, from
nothing found. -/
def singlePass {m : Type → Type} [Monad m] (g : Graph) (d : Domain L) (transfer : BlockId → L → m L)
    (seed : L) : m (Progress L) :=
  (List.range g.reversePostorder.length).foldlM (passStep g d transfer seed g.reversePostorder.toArray)
    { Progress.start g.reversePostorder.toArray.size with work := [] }

private theorem range'_succ_of_lt {k n : Nat} (hk : k < n) :
    List.range' k (n - k) = k :: List.range' (k + 1) (n - (k + 1)) := by
  rw [show n - k = (n - (k + 1)) + 1 by omega, List.range'_succ]

section Run

variable {g : Graph} {order : Array BlockId} (hO : OnePassOrder g order) (d : Domain L) (seed : L)
include hO

/-- In any monad and with any transfer, a run from a state between visits of a single pass is
the single pass over the remaining ranks. -/
theorem run_visiting {m : Type → Type} [Monad m] [LawfulMonad m] (t : BlockId → L → m L) :
    ∀ (fuel k : Nat) (st : Progress L), Visiting g order k st → order.size - k ≤ fuel →
      run g d t seed order fuel st = (fun p => .ok p) <$>
        (List.range' k (order.size - k)).foldlM (passStep g d t seed order) { st with work := [] }
  | fuel, k, st, hv, hfuel => by
    by_cases hk : k < order.size
    · obtain ⟨rest, hw⟩ := hv.head hO hk
      cases fuel with
      | zero => omega
      | succ fuel =>
        rw [run_cons g d t seed order fuel st hw, range'_succ_of_lt hk, List.foldlM_cons]
        simp only [passStep, bind_assoc, pure_bind, map_bind]
        -- after the transfer, whatever it returns, the run and the pass go on together
        refine congrArg (t (blockAt g order k) (st.input g d seed order k) >>= ·) (funext fun out => ?_)
        exact run_visiting t fuel (k + 1) _ (hv.advance hO hk hw d _ out) (by omega)
    · have hkn : k = order.size := Nat.le_antisymm hv.le_size (Nat.not_lt.mp hk)
      subst hkn
      have hw := hv.work_nil hO
      rw [run_nil g d t seed order fuel st hw, Nat.sub_self, List.range'_zero, List.foldlM_nil, map_pure]
      -- the worklist is already empty
      cases st
      simp_all

/-- With a pure transfer, the visits of a run from a state between visits of a single pass are
the blocks of the remaining ranks, in order. -/
theorem trace_visiting (f : BlockId → L → L) :
    ∀ (fuel k : Nat) (st : Progress L), Visiting g order k st → order.size - k ≤ fuel →
      (trace g d f seed order fuel st).map Prod.fst = (List.range' k (order.size - k)).map (blockAt g order)
  | fuel, k, st, hv, hfuel => by
    by_cases hk : k < order.size
    · obtain ⟨rest, hw⟩ := hv.head hO hk
      cases fuel with
      | zero => omega
      | succ fuel =>
        have hv' : Visiting g order (k + 1) (st.visit g d f seed order k rest) := hv.advance hO hk hw d _ _
        rw [trace_cons g d f seed order fuel st hw, range'_succ_of_lt hk, List.map_cons, List.map_cons,
          trace_visiting f fuel (k + 1) _ hv' (by omega)]
    · have hkn : k = order.size := Nat.le_antisymm hv.le_size (Nat.not_lt.mp hk)
      subst hkn
      rw [trace_nil g d f seed order fuel st (hv.work_nil hO), Nat.sub_self, List.range'_zero]
      rfl

end Run

/-! ### What a single pass finds -/

/-- The visit of rank `r` in a single pass with the pure transfer `f`. -/
def Progress.recordVisit (g : Graph) (d : Domain L) (f : BlockId → L → L) (seed : L) (order : Array BlockId)
    (st : Progress L) (r : Nat) : Progress L :=
  st.record r (st.input g d seed order r) (f (blockAt g order r) (st.input g d seed order r))

section Settle

variable {g : Graph} {d : Domain L} {f : BlockId → L → L} {seed : L} {order : Array BlockId}

theorem Progress.inAt_record {st : Progress L} {r : Nat} {merged out : L} (hr : r < st.ins.size) (r' : Nat) :
    (st.record r merged out).inAt r' = if r' = r then some merged else st.inAt r' :=
  join_getElem?_set! st.ins hr merged r'

theorem Progress.outAt_record {st : Progress L} {r : Nat} {merged out : L} (hr : r < st.outs.size) (r' : Nat) :
    (st.record r merged out).outAt r' = if r' = r then some out else st.outAt r' :=
  join_getElem?_set! st.outs hr out r'

/-- Recording a visit of rank `k` leaves the input of every rank up to `k` as it was: the
predecessors of its block all come earlier. -/
theorem input_record (hO : OnePassOrder g order) {st : Progress L} {k r : Nat} (hk : k < st.outs.size)
    (hr : r < order.size) (hrk : r ≤ k) (merged out : L) :
    (st.record k merged out).input g d seed order r = st.input g d seed order r := by
  unfold Progress.input
  rw [Progress.incoming_eq, Progress.incoming_eq]
  congr 2
  refine List.filterMap_congr fun p hp => ?_
  unfold Progress.outOf
  cases hpr : rankIn order p with
  | none => rfl
  | some pr =>
    have hlt := hO.back r hr p hp pr hpr
    simp only [Option.bind_some]
    rw [Progress.outAt_record hk, if_neg (by omega)]

/-- Between visits of a single pass with the pure transfer `f`: the ranks below `k` were visited
and no other, each with the input its predecessors give it now and the transfer of that input as
output. -/
structure Settled (g : Graph) (d : Domain L) (f : BlockId → L → L) (seed : L) (order : Array BlockId)
    (k : Nat) (st : Progress L) : Prop where
  ins_size : st.ins.size = order.size
  outs_size : st.outs.size = order.size
  iterations_eq : st.iterations = k
  inAt_lt : ∀ r < k, st.inAt r = some (st.input g d seed order r)
  outAt_lt : ∀ r < k, st.outAt r = some (f (blockAt g order r) (st.input g d seed order r))
  inAt_ge : ∀ r, k ≤ r → st.inAt r = none
  outAt_ge : ∀ r, k ≤ r → st.outAt r = none

theorem settled_start : Settled g d f seed order 0 { Progress.start order.size with work := [] } where
  ins_size := by simp [Progress.start]
  outs_size := by simp [Progress.start]
  iterations_eq := rfl
  inAt_lt _ h := absurd h (Nat.not_lt_zero _)
  outAt_lt _ h := absurd h (Nat.not_lt_zero _)
  inAt_ge r _ := inAt_start order.size r
  outAt_ge r _ := outAt_start order.size r

theorem Settled.recordVisit (hO : OnePassOrder g order) {k : Nat} {st : Progress L}
    (hs : Settled g d f seed order k st) (hk : k < order.size) :
    Settled g d f seed order (k + 1) (st.recordVisit g d f seed order k) := by
  have hins : k < st.ins.size := hs.ins_size ▸ hk
  have houts : k < st.outs.size := hs.outs_size ▸ hk
  -- the inputs of the ranks visited so far, this one included, do not change
  have hinput : ∀ r ≤ k, (st.recordVisit g d f seed order k).input g d seed order r = st.input g d seed order r :=
    fun r hr => input_record hO houts (by omega) hr _ _
  refine ⟨by simp [Progress.recordVisit, Progress.record, hs.ins_size],
    by simp [Progress.recordVisit, Progress.record, hs.outs_size],
    by simp [Progress.recordVisit, Progress.record, hs.iterations_eq], fun r hr => ?_, fun r hr => ?_,
    fun r hr => ?_, fun r hr => ?_⟩
  · rw [hinput r (by omega), Progress.recordVisit, Progress.inAt_record hins]
    by_cases h : r = k
    · rw [if_pos h, h]
    · rw [if_neg h]
      exact hs.inAt_lt r (by omega)
  · rw [hinput r (by omega), Progress.recordVisit, Progress.outAt_record houts]
    by_cases h : r = k
    · rw [if_pos h, h]
    · rw [if_neg h]
      exact hs.outAt_lt r (by omega)
  · rw [Progress.recordVisit, Progress.inAt_record hins, if_neg (by omega)]
    exact hs.inAt_ge r (by omega)
  · rw [Progress.recordVisit, Progress.outAt_record houts, if_neg (by omega)]
    exact hs.outAt_ge r (by omega)

/-- A single pass over the remaining ranks settles them all. -/
theorem Settled.foldl (hO : OnePassOrder g order) :
    ∀ (j k : Nat) (st : Progress L), Settled g d f seed order k st → k + j = order.size →
      Settled g d f seed order order.size ((List.range' k j).foldl (Progress.recordVisit g d f seed order) st)
  | 0, k, st, hs, hkj => by
    rw [Nat.add_zero] at hkj
    subst hkj
    exact hs
  | j + 1, k, st, hs, hkj => by
    rw [List.range'_succ, List.foldl_cons]
    exact Settled.foldl hO j (k + 1) _ (hs.recordVisit hO (by omega)) (by omega)

theorem passStep_pure (st : Progress L) (r : Nat) :
    passStep g d (fun b x => (pure (f b x) : Id L)) seed order st r = pure (st.recordVisit g d f seed order r) :=
  rfl

/-- A single pass with the pure transfer `f` over the ranks of an order in which every block
comes after its predecessors settles every rank. -/
theorem settled_singlePass (hO : OnePassOrder g g.reversePostorder.toArray) :
    Settled g d f seed g.reversePostorder.toArray g.reversePostorder.length
      (Id.run (singlePass g d (fun b x => pure (f b x)) seed)) := by
  have hstep : passStep g d (fun b x => (pure (f b x) : Id L)) seed g.reversePostorder.toArray =
      fun st r => pure (st.recordVisit g d f seed g.reversePostorder.toArray r) :=
    funext fun st => funext fun r => passStep_pure st r
  unfold singlePass
  rw [hstep, List.foldlM_pure, List.range_eq_range']
  have hsize : g.reversePostorder.toArray.size = g.reversePostorder.length := List.size_toArray
  exact hsize ▸ Settled.foldl hO _ 0 _ settled_start (by rw [hsize, Nat.zero_add])

end Settle

/-! ### The solver on a graph without cycles -/

/-- A graph has no cycle through a reachable block when some height grows along every edge
leaving a reachable block. -/
theorem acyclicFromEntry_of_height {g : Graph} (h : BlockId → Nat)
    (hup : ∀ a, g.Reaches g.entry a → ∀ b ∈ g.succBlocks a, h a < h b) : g.AcyclicFromEntry := by
  -- along a path from a reachable block the height grows at every step
  have hpath : ∀ a c, g.Reaches g.entry a → Relation.TransGen g.Succ a c → h a < h c := by
    intro a c ha hac
    induction hac with
    | single hab => exact hup a ha _ hab
    | @tail b c hab hbc ih =>
      have hb : g.Reaches g.entry b := Relation.ReflTransGen.trans ha hab.to_reflTransGen
      exact Nat.lt_trans ih (hup b hb c hbc)
  intro b hb hbb
  exact Nat.lt_irrefl _ (hpath b b hb hbb)

section Acyclic

variable {g : Graph} {d : Domain L} {seed : L}

theorem solve_eq_run {m : Type → Type} [Monad m] (t : BlockId → L → m L) (budget : Nat) :
    solve g d t seed budget =
      run g d t seed g.reversePostorder.toArray budget (Progress.start g.reversePostorder.toArray.size) >>=
        fun r => pure (finish g r) := by
  unfold solve
  dsimp only
  congr 1
  funext r
  cases r <;> rfl

/-- With a budget that covers the reachable blocks, the solver is the single pass, in any
monad. -/
theorem solve_eq_singlePass (hO : OnePassOrder g g.reversePostorder.toArray) {m : Type → Type} [Monad m]
    [LawfulMonad m] (t : BlockId → L → m L) {budget : Nat} (hb : g.reversePostorder.length ≤ budget) :
    solve g d t seed budget = (fun p => finish g (.ok p)) <$> singlePass g d t seed := by
  have hcover : g.reversePostorder.toArray.size - 0 ≤ budget := by simpa using hb
  rw [solve_eq_run, run_visiting hO d seed t budget 0 _ visiting_start hcover, singlePass,
    List.range_eq_range', Nat.sub_zero]
  simp only [map_eq_pure_bind, bind_assoc, pure_bind, List.size_toArray]

theorem map_blockAt_range' (l : List BlockId) : (List.range' 0 l.length).map (blockAt g l.toArray) = l := by
  refine List.ext_getElem (by simp) fun i h₁ h₂ => ?_
  have hi : i < l.length := by simpa using h₂
  simp [blockAt, hi]

theorem finish_ok (st : Progress L) :
    ∃ sol, finish g (.ok st) = .ok sol ∧ sol.inAt = st.inOf g.reversePostorder.toArray ∧
      sol.outAt = st.outOf g.reversePostorder.toArray ∧ sol.iterations = st.iterations :=
  ⟨_, rfl, rfl, rfl, rfl⟩

theorem Progress.input_eq (st : Progress L) (order : Array BlockId) (r : Nat) :
    st.input g d seed order r = d.joinAll ((if blockAt g order r = g.entry then [seed] else []) ++
      (g.predBlocks (blockAt g order r)).filterMap (st.outOf order)) := by
  unfold Progress.input
  rw [Progress.incoming_eq]

/-- With a pure transfer and a budget that covers the reachable blocks, the solver answers after
one visit per reachable block, with the facts the single pass settles. -/
theorem solve_pure_answer (hg : g.Coherent) (hO : OnePassOrder g g.reversePostorder.toArray)
    (f : BlockId → L → L) {budget : Nat} (hb : g.reversePostorder.length ≤ budget) :
    ∃ sol, Id.run (solve g d (fun b x => pure (f b x)) seed budget) = .ok sol ∧
      sol.iterations = g.reversePostorder.length ∧
      (∀ b x, sol.inAt b = some x ↔ g.Reaches g.entry b ∧
        x = d.joinAll ((if b = g.entry then [seed] else []) ++ (g.predBlocks b).filterMap sol.outAt)) ∧
      (∀ b x, sol.inAt b = some x → sol.outAt b = some (f b x)) := by
  have hs : Settled g d f seed g.reversePostorder.toArray g.reversePostorder.length
      (Id.run (singlePass g d (fun b x => pure (f b x)) seed)) := settled_singlePass hO
  obtain ⟨sol, hsol, hin, hout, hit⟩ := finish_ok (g := g) (Id.run (singlePass g d (fun b x => pure (f b x)) seed))
  have hsolve : Id.run (solve g d (fun b x => pure (f b x)) seed budget) = .ok sol := by
    rw [solve_eq_singlePass hO _ hb]
    exact hsol
  -- a ranked block is the block of its rank, reachable, and visited
  have hrank : ∀ b r, rankIn g.reversePostorder.toArray b = some r →
      r < g.reversePostorder.length ∧ blockAt g g.reversePostorder.toArray r = b ∧ g.Reaches g.entry b :=
    fun b r hr => ⟨by simpa using lt_of_rankIn hr, blockAt_of_getElem? (getElem?_of_rankIn hr),
      (rankIn_isSome_iff hg b).mp (by rw [hr]; rfl)⟩
  refine ⟨sol, hsolve, hit.trans hs.iterations_eq, fun b x => ?_, fun b x hx => ?_⟩
  · rw [hin, Progress.inOf]
    cases hr : rankIn g.reversePostorder.toArray b with
    | none =>
      -- an unranked block is unreachable
      have hnr : ¬ g.Reaches g.entry b := fun hb => by
        simpa [hr] using (rankIn_isSome_iff hg b).mpr hb
      simp [hnr]
    | some r =>
      obtain ⟨hlt, hblk, hreach⟩ := hrank b r hr
      rw [Option.bind_some, hs.inAt_lt r hlt, Progress.input_eq, hblk, ← hout]
      exact ⟨fun h => ⟨hreach, (Option.some.inj h).symm⟩, fun h => h.2 ▸ rfl⟩
  · rw [hin, Progress.inOf] at hx
    obtain ⟨r, hr, hrx⟩ := Option.bind_eq_some_iff.mp hx
    obtain ⟨hlt, hblk, -⟩ := hrank b r hr
    rw [hs.inAt_lt r hlt] at hrx
    rw [hout, Progress.outOf, hr, Option.bind_some, hs.outAt_lt r hlt, hblk, Option.some.inj hrx]

end Acyclic

/-- What the solver does with a budget on a graph whose reachable part has no cycle. Reverse
post-order lists each reachable block once, after its reachable predecessors. In any monad, with
any transfer, the solver is the single pass over that order. With a pure transfer it visits the
blocks of that order, in order, and answers after one visit per reachable block: the input of a
block is the join of the seed, at the entry, and of the outputs of its reachable predecessors,
and its output is the transfer of its input. -/
structure OnePass (g : Graph) (d : Domain L) (seed : L) (budget : Nat) : Prop where
  mem_order : ∀ b, b ∈ g.reversePostorder ↔ g.Reaches g.entry b
  order_nodup : g.reversePostorder.Nodup
  preds_before : ∀ b p, g.Reaches g.entry b → g.Reaches g.entry p → p ∈ g.predBlocks b →
    [p, b].Sublist g.reversePostorder
  solve_eq : ∀ {m : Type → Type} [Monad m] [LawfulMonad m] (t : BlockId → L → m L),
    solve g d t seed budget = (fun p => finish g (.ok p)) <$> singlePass g d t seed
  visits : ∀ f : BlockId → L → L, (solveTrace g d f seed budget).map Prod.fst = g.reversePostorder
  answer : ∀ f : BlockId → L → L, ∃ sol, Id.run (solve g d (fun b x => pure (f b x)) seed budget) = .ok sol ∧
    sol.iterations = g.reversePostorder.length ∧
    (∀ b x, sol.inAt b = some x ↔ g.Reaches g.entry b ∧
      x = d.joinAll ((if b = g.entry then [seed] else []) ++ (g.predBlocks b).filterMap sol.outAt)) ∧
    (∀ b x, sol.inAt b = some x → sol.outAt b = some (f b x))

/-- On a coherent graph whose reachable part has no cycle, a budget that covers the reachable
blocks makes the solver a single pass over reverse post-order, whatever the domain and the
transfer. -/
theorem solve_onePass {g : Graph} (hg : g.Coherent) (hacyc : g.AcyclicFromEntry) (d : Domain L) (seed : L)
    {budget : Nat} (hb : g.reversePostorder.length ≤ budget) : OnePass g d seed budget := by
  have hO := onePassOrder_reversePostorder hg hacyc
  have hdfs := depthFirstOrder_reversePostorder hg
  refine ⟨hdfs.mem_iff, hdfs.nodup, fun b p hb hp hpb => ?_, fun t => solve_eq_singlePass hO t hb,
    fun f => ?_, fun f => solve_pure_answer hg hO f hb⟩
  · -- a listed predecessor lists the block as a successor, and that edge goes forward
    exact hdfs.topological hacyc hp (hg.pred_succ p b hp hb hpb)
  · have hcover : g.reversePostorder.toArray.size - 0 ≤ budget := by simpa using hb
    unfold solveTrace
    rw [trace_visiting hO d seed f budget 0 _ visiting_start hcover, Nat.sub_zero, List.size_toArray,
      map_blockAt_range']

theorem diamondGraph_coherent : Graph.diamondGraph.Coherent := Graph.built_diamondGraph.wired.coherent

theorem diamondGraph_acyclic : Graph.diamondGraph.AcyclicFromEntry := by
  have hreach : ∀ b, Graph.diamondGraph.Reaches Graph.diamondGraph.entry b → b ∈ [0, 2, 3, 1] := fun b hb =>
    Graph.Reaches.closed hb (by decide) (by decide)
  -- the entry, then the two arms, then the exit
  refine acyclicFromEntry_of_height (fun b => if b = 0 then 0 else if b = 1 then 2 else 1) fun a ha => ?_
  have key : ∀ a ∈ [0, 2, 3, 1], ∀ b ∈ Graph.diamondGraph.succBlocks a,
      (if a = 0 then 0 else if a = 1 then 2 else 1) < (if b = 0 then 0 else if b = 1 then 2 else 1) := by
    decide
  exact key a (hreach a ha)

/-- The diamond, with the domain of truth values under `or`, is answered in one pass. -/
theorem solve_onePass_diamond : Graph.diamondGraph.Coherent ∧ Graph.diamondGraph.AcyclicFromEntry ∧
    Graph.diamondGraph.reversePostorder.length ≤ 4 ∧ OnePass Graph.diamondGraph orDomain false 4 :=
  ⟨diamondGraph_coherent, diamondGraph_acyclic, by decide,
    solve_onePass diamondGraph_coherent diamondGraph_acyclic orDomain false (by decide)⟩

end NullGuard.Dataflow
