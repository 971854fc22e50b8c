import NullGuard.Proofs.Domain
import NullGuard.Proofs.Postorder

/-!
# One visit of the worklist solver

`Dataflow.run` pops the smallest rank from the worklist, joins the outputs of the visited
predecessors of its block (the seed first, at the entry), runs the transfer, and requeues the
block's successors when the output changed. This file names the pieces of one visit
(`incoming`, `Progress.advance`) and states what a visit does to the facts and to the
worklist, so that later proofs never unfold the solver.

* `run_cons`: the run of a non-empty worklist is one visit, then the run of what follows;
* `inAt_advance`, `outAt_advance`: a visit writes the facts of its own rank only;
* `mem_work_advance`: after a visit the worklist holds the rest of the old one, and the ranks
  of the block's successors when its output changed;
* `Ranking`: the visiting order lists distinct reachable blocks, the entry first, as
  reverse post-order does (`ranking_reversePostorder`).
-/

namespace NullGuard.Dataflow

variable {L : Type}

/-! ### Ranks -/

/-- What the solver needs of its visiting order: distinct blocks reachable from the entry, the
entry first. -/
structure Ranking (g : Graph) (order : Array BlockId) : Prop where
  nodup : order.toList.Nodup
  reach : ∀ b ∈ order, g.Reaches g.entry b
  entry : order[0]? = some g.entry

theorem ranking_reversePostorder (g : Graph) : Ranking g g.reversePostorder.toArray where
  nodup := by simpa using g.reversePostorder_nodup
  reach b hb := Graph.reaches_of_mem_reversePostorder (by simpa using hb)
  entry := by
    have h := g.reversePostorder_head
    rw [List.head?_eq_getElem?] at h
    simpa using h

theorem getElem?_of_rankIn {order : Array BlockId} {b : BlockId} {r : Nat}
    (h : rankIn order b = some r) : order[r]? = some b := by
  obtain ⟨hr, hb, -⟩ := List.findIdx?_eq_some_iff_getElem.mp h
  rw [← Array.getElem?_toList, List.getElem?_eq_getElem hr, beq_iff_eq.mp hb]

theorem lt_of_rankIn {order : Array BlockId} {b : BlockId} {r : Nat} (h : rankIn order b = some r) :
    r < order.size := by
  simpa using (List.findIdx?_eq_some_iff_getElem.mp h).1

theorem rankIn_of_mem {order : Array BlockId} {b : BlockId} (h : b ∈ order) :
    ∃ r, rankIn order b = some r := by
  have hsome : (rankIn order b).isSome := by
    unfold rankIn
    rw [List.findIdx?_isSome, List.any_eq_true]
    exact ⟨b, Array.mem_toList_iff.mpr h, by simp⟩
  exact Option.isSome_iff_exists.mp hsome

/-- In an order without repeats, the block at a rank has that rank. -/
theorem rankIn_of_getElem? {order : Array BlockId} (hnd : order.toList.Nodup) {b : BlockId} {r : Nat}
    (h : order[r]? = some b) : rankIn order b = some r := by
  obtain ⟨r', hr'⟩ := rankIn_of_mem (Array.mem_of_getElem? h)
  have h' := getElem?_of_rankIn hr'
  have hlt' : r' < order.size := lt_of_rankIn hr'
  have : r' = r := by
    rw [← Array.getElem?_toList] at h h'
    exact (List.getElem?_inj (by simpa using hlt') hnd).mp (h'.trans h.symm)
  rw [hr', this]

/-! ### The worklist -/

theorem mem_enqueue {r x : Nat} : ∀ {w : List Nat}, x ∈ enqueue r w ↔ x = r ∨ x ∈ w
  | [] => by simp [enqueue]
  | y :: ys => by
    unfold enqueue
    split
    · simp
    · split
      · rename_i h
        have : r = y := by simpa using h
        subst this
        simp
      · simp only [List.mem_cons, mem_enqueue]
        tauto

/-- The worklist after requeueing the ranks of some successors. -/
def requeue (order : Array BlockId) (succs : List BlockId) (rest : List Nat) : List Nat :=
  succs.foldl (fun w s => match rankIn order s with
    | some sr => enqueue sr w
    | none => w) rest

theorem mem_requeue {order : Array BlockId} {x : Nat} :
    ∀ (succs : List BlockId) (rest : List Nat),
      x ∈ requeue order succs rest ↔ x ∈ rest ∨ ∃ s ∈ succs, rankIn order s = some x
  | [], rest => by simp [requeue]
  | s :: succs, rest => by
    have ih := @mem_requeue order x succs
    unfold requeue at ih ⊢
    rw [List.foldl_cons, ih]
    cases hs : rankIn order s with
    | none =>
      simp only [List.mem_cons, exists_eq_or_imp, hs, reduceCtorEq, false_or]
    | some sr =>
      simp only [mem_enqueue, List.mem_cons, exists_eq_or_imp, hs, Option.some.injEq]
      tauto

/-! ### One visit -/

/-- The block of a rank; the entry when the rank is out of range. -/
def blockAt (g : Graph) (order : Array BlockId) (r : Nat) : BlockId := order[r]?.getD g.entry

/-- The values joined into the input of block `b`: the seed at the entry, then the outputs of
the visited predecessors, in edge order. -/
def incoming (g : Graph) (seed : L) (order : Array BlockId) (outs : Array (Option L)) (b : BlockId) :
    List L :=
  let inc := (g.predBlocks b).filterMap fun p => (rankIn order p).bind fun pr => (outs[pr]?).join
  if b == g.entry then seed :: inc else inc

namespace Progress

/-- The input of a visit of rank `r`: the join of the values `incoming` gives its block. -/
def input (g : Graph) (d : Domain L) (seed : L) (order : Array BlockId) (st : Progress L) (r : Nat) : L :=
  d.joinAll (incoming g seed order st.outs (blockAt g order r))

/-- The input found for a rank, if it was visited. -/
def inAt (st : Progress L) (r : Nat) : Option L := (st.ins[r]?).join

/-- The output found for a rank, if it was visited. -/
def outAt (st : Progress L) (r : Nat) : Option L := (st.outs[r]?).join

/-- The output found for a block, through its rank. -/
def outOf (order : Array BlockId) (st : Progress L) (p : BlockId) : Option L :=
  (rankIn order p).bind st.outAt

/-- Whether the output `out` of a visit of rank `r` counts as a change: a first visit always does,
a later one when the domain's equality tells it from the old output. -/
def changed (d : Domain L) (st : Progress L) (r : Nat) (out : L) : Bool :=
  match (st.outs[r]?).join with
  | none => true
  | some old => !d.same out old

/-- The state after the visit of rank `r`, popped from the worklist with `rest` left, whose
input was `merged` and whose transfer gave `out`. -/
def advance (g : Graph) (d : Domain L) (order : Array BlockId) (st : Progress L) (r : Nat)
    (rest : List Nat) (merged out : L) : Progress L :=
  { work := if st.changed d r out then requeue order (g.succBlocks (blockAt g order r)) rest else rest,
    ins := st.ins.set! r (some merged), outs := st.outs.set! r (some out),
    iterations := st.iterations + 1 }

end Progress

/-- The run of a worklist that starts with `r`: one visit, then the run from the state it
leaves. -/
theorem run_cons {m : Type → Type} [Monad m] (g : Graph) (d : Domain L) (transfer : BlockId → L → m L)
    (seed : L) (order : Array BlockId) (fuel : Nat) (st : Progress L) {r : Nat} {rest : List Nat}
    (hw : st.work = r :: rest) :
    run g d transfer seed order (fuel + 1) st =
      (do
        let merged := st.input g d seed order r
        let out ← transfer (blockAt g order r) merged
        run g d transfer seed order fuel (st.advance g d order r rest merged out)) := by
  conv_lhs => unfold run
  rw [hw]
  rfl

theorem run_nil {m : Type → Type} [Monad m] (g : Graph) (d : Domain L) (transfer : BlockId → L → m L)
    (seed : L) (order : Array BlockId) (fuel : Nat) (st : Progress L) (hw : st.work = []) :
    run g d transfer seed order fuel st = pure (.ok st) := by
  unfold run
  rw [hw]

theorem run_zero {m : Type → Type} [Monad m] (g : Graph) (d : Domain L) (transfer : BlockId → L → m L)
    (seed : L) (order : Array BlockId) (st : Progress L) {r : Nat} {rest : List Nat}
    (hw : st.work = r :: rest) :
    run g d transfer seed order 0 st = pure (.error st.iterations) := by
  unfold run
  rw [hw]

/-- Writing a fact at an index in range changes what is read there and nothing else. -/
theorem join_getElem?_set! (a : Array (Option L)) {r : Nat} (hr : r < a.size) (x : L) (r' : Nat) :
    ((a.set! r (some x))[r']?).join = if r' = r then some x else (a[r']?).join := by
  simp only [Array.set!_eq_setIfInBounds, Array.getElem?_setIfInBounds]
  by_cases h : r' = r
  · subst h; simp [hr]
  · simp [h, Ne.symm h]

namespace Progress

variable {g : Graph} {d : Domain L} {order : Array BlockId} {st : Progress L} {r : Nat}
  {rest : List Nat} {merged out : L}

theorem inAt_advance (hr : r < st.ins.size) (r' : Nat) :
    (st.advance g d order r rest merged out).inAt r' = if r' = r then some merged else st.inAt r' :=
  join_getElem?_set! st.ins hr merged r'

theorem outAt_advance (hr : r < st.outs.size) (r' : Nat) :
    (st.advance g d order r rest merged out).outAt r' = if r' = r then some out else st.outAt r' :=
  join_getElem?_set! st.outs hr out r'

@[simp] theorem ins_size_advance : (st.advance g d order r rest merged out).ins.size = st.ins.size := by
  simp [advance]

@[simp] theorem outs_size_advance :
    (st.advance g d order r rest merged out).outs.size = st.outs.size := by
  simp [advance]

theorem mem_work_advance {x : Nat} :
    x ∈ (st.advance g d order r rest merged out).work ↔
      x ∈ rest ∨ (st.changed d r out = true ∧
        ∃ s ∈ g.succBlocks (blockAt g order r), rankIn order s = some x) := by
  unfold advance
  by_cases h : st.changed d r out = true
  · simp only [h, if_true, mem_requeue, true_and]
  · simp only [h, if_false, Bool.false_eq_true, false_and, or_false]

/-- A visit queues only ranks of the order. -/
theorem lt_of_mem_work_advance (hlt : ∀ x ∈ st.work, x < order.size) (hw : st.work = r :: rest) {x : Nat}
    (hx : x ∈ (st.advance g d order r rest merged out).work) : x < order.size := by
  rcases mem_work_advance.mp hx with hx | ⟨-, s, -, hs⟩
  · exact hlt x (by simp [hw, hx])
  · exact lt_of_rankIn hs

theorem incoming_eq (g : Graph) (seed : L) (order : Array BlockId) (st : Progress L) (b : BlockId) :
    incoming g seed order st.outs b =
      (if b = g.entry then [seed] else []) ++ (g.predBlocks b).filterMap (st.outOf order) := by
  have hof : st.outOf order = fun p => (rankIn order p).bind fun pr => (st.outs[pr]?).join := rfl
  unfold incoming
  rw [hof]
  by_cases h : b = g.entry <;> simp [h]

/-- A visit that does not count as a change finds an output equal to the old one. -/
theorem same_of_not_changed (h : st.changed d r out = false) :
    ∃ old, st.outAt r = some old ∧ d.same out old := by
  unfold changed at h
  unfold outAt
  cases hold : (st.outs[r]?).join with
  | none => rw [hold] at h; cases h
  | some old =>
    rw [hold] at h
    exact ⟨old, rfl, by simpa using h⟩

end Progress

end NullGuard.Dataflow
