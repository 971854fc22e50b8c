import NullGuard.Graph.Order
import NullGuard.Number.Binary64

/-!
# The forward worklist solver

`Dataflow.solve` computes, for the blocks reachable from the entry,

    IN[B]  = ⊔ { OUT[P] | P a predecessor of B already visited }   (the seed first, for the entry)
    OUT[B] = f_B (IN[B])

visiting blocks from a worklist ordered by their rank in reverse post-order, smallest rank
first. A block's successors join the worklist when its `OUT` changes, a first visit counting
as a change, and change is judged by the domain's own equality. Each visit spends one unit of
the budget; when the worklist is not yet empty and the budget is spent, the solver gives up
with the number of visits made. `Dataflow.solveTimed` adds a time limit, read from the clock
before each visit once the visit budget allows it, and says which budget ran out.

The transfer function runs in any monad, so that it may record findings and consult other
analyses while the solver runs.
-/

namespace NullGuard.Dataflow

/-- What the solver needs of a domain: a least element, a join, and an equality. -/
structure Domain (L : Type) where
  bottom : L
  join : L → L → L
  same : L → L → Bool

/-- The facts found for the blocks of a graph, indexed by rank in reverse post-order, with the
blocks' ordinals and the rank of the exit block. -/
structure Solution (L : Type) where
  order : Array BlockId
  ordinals : Array Int
  exitRank : Option Nat
  ins : Array (Option L)
  outs : Array (Option L)
  iterations : Nat

/-- The solver's state between visits. -/
structure Progress (L : Type) where
  work : List Nat
  ins : Array (Option L)
  outs : Array (Option L)
  iterations : Nat

/-- Insert a rank into an increasing list of distinct ranks. -/
def enqueue (r : Nat) : List Nat → List Nat
  | [] => [r]
  | x :: xs => if r < x then r :: x :: xs else if r == x then x :: xs else x :: enqueue r xs

/-- The rank of a block in an order. -/
def rankIn (order : Array BlockId) (b : BlockId) : Option Nat := order.toList.findIdx? (· == b)

/-- Visit blocks until the worklist is empty or the budget is spent. -/
def run {m : Type → Type} [Monad m] {L : Type} (g : Graph) (d : Domain L) (transfer : BlockId → L → m L)
    (seed : L) (order : Array BlockId) : Nat → Progress L → m (Except Nat (Progress L))
  | fuel, st =>
    match st.work with
    | [] => pure (.ok st)
    | r :: rest =>
      match fuel with
      | 0 => pure (.error st.iterations)
      | fuel + 1 => do
        let b := order[r]?.getD g.entry
        let incoming := (g.predBlocks b).filterMap fun p => (rankIn order p).bind fun pr => (st.outs[pr]?).join
        let incoming := if b == g.entry then seed :: incoming else incoming
        let merged := incoming.foldl d.join d.bottom
        let out ← transfer b merged
        let changed := match (st.outs[r]?).join with
          | none => true
          | some old => !d.same out old
        let work := if changed then
            (g.succBlocks b).foldl (fun w s => match rankIn order s with
              | some sr => enqueue sr w
              | none => w) rest
          else rest
        run g d transfer seed order fuel
          { work, ins := st.ins.set! r (some merged), outs := st.outs.set! r (some out),
            iterations := st.iterations + 1 }

/-- Solve the equations of a graph from `seed` at the entry, within `budget` visits; the
error carries the number of visits made. -/
def solve {m : Type → Type} [Monad m] {L : Type} (g : Graph) (d : Domain L) (transfer : BlockId → L → m L)
    (seed : L) (budget : Nat) : m (Except Nat (Solution L)) := do
  let order := g.reversePostorder.toArray
  let start : Progress L :=
    { work := [0], ins := Array.replicate order.size none, outs := Array.replicate order.size none,
      iterations := 0 }
  match ← run g d transfer seed order budget start with
  | .error n => pure (.error n)
  | .ok st =>
    pure (.ok
      { order, ordinals := order.map g.ordinal, exitRank := rankIn order g.exit, ins := st.ins,
        outs := st.outs, iterations := st.iterations })

/-- The budget a solve ran out of. -/
inductive Overrun where
  | iterations
  | time
  deriving DecidableEq, Repr

/-- The first of the `n` visits from visit `k + 1` on before which the time limit has passed,
or the visit after them. -/
def firstLate (late : Nat → Bool) : Nat → Nat → Nat
  | 0, k => k
  | n + 1, k => if late k then k else firstLate late n (k + 1)

/-- The visits a solve may make within `budget` visits and, when a limit is set, within `limit`
seconds by the clock `elapsed`, read before each visit (`elapsed k` before visit `k + 1`): those
before the first visit whose reading is past the limit. -/
def allowance (budget : Nat) (limit : Option Binary64) (elapsed : Nat → Binary64) : Nat :=
  match limit with
  | none => budget
  | some s => firstLate (fun k => s.lt (elapsed k)) budget 0

/-- `solve` within a time limit as well, checked before each visit after the visit budget. The
error names the budget that ran out, with the number of visits made. -/
def solveTimed {m : Type → Type} [Monad m] {L : Type} (g : Graph) (d : Domain L)
    (transfer : BlockId → L → m L) (seed : L) (budget : Nat) (limit : Option Binary64)
    (elapsed : Nat → Binary64) : m (Except (Overrun × Nat) (Solution L)) :=
  let allowed := allowance budget limit elapsed
  (Except.mapError fun n => (if allowed < budget then .time else .iterations, n)) <$>
    solve g d transfer seed allowed

namespace Solution

/-- The facts of a table, with the ordinal of their block, in increasing ordinal order. -/
def byOrdinal {L : Type} (ordinals : Array Int) (facts : Array (Option L)) : List (Int × L) :=
  let pairs := (ordinals.toList.zip facts.toList).filterMap fun (o, f) => f.map (o, ·)
  pairs.mergeSort fun a b => a.1 ≤ b.1

/-- The facts at block entries, by ordinal. -/
def inFacts {L : Type} (s : Solution L) : List (Int × L) := byOrdinal s.ordinals s.ins

/-- The facts after block transfers, by ordinal. -/
def outFacts {L : Type} (s : Solution L) : List (Int × L) := byOrdinal s.ordinals s.outs

/-- The fact after the exit block's transfer; `none` when the exit was never reached. -/
def exitFact {L : Type} (s : Solution L) : Option L := s.exitRank.bind fun r => (s.outs[r]?).join

end Solution

end NullGuard.Dataflow
