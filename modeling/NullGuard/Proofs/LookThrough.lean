import NullGuard.Analysis.Transfer

/-!
# Looking through arguments and conversions

An argument or a conversion stands for the value underneath it. `PointsToFacts.ofOp` looks
through such nodes to what their value points to, and `Operation.referencedParameter` looks
through them to the parameter their value reads. Both walks pass the same nodes,
`Operation.lookThrough`: the node itself and, below an argument or a conversion, the nodes its
value is read through.

* `PointsToFacts.ofOp_eq_of_lookThrough`: where no override is set on those nodes, an operation
  points where the parameter it reads points on entry, and nowhere when it reads none, whatever
  the facts say a parameter points to;
* `Procedure.locations_of_lookThrough`: with parameters pointing to their own cells, the
  locations of an operation are the cell of the parameter it reads when that parameter is
  trackable, and nothing otherwise. The fallback of an unknown value to the parameter read
  rests on this agreement.
-/

namespace NullGuard

namespace Operation

mutual

/-- The nodes a value is read through: the node itself and, for an argument or a conversion,
the nodes its value is read through. -/
def lookThrough : Operation → List Operation
  | node i cs =>
    node i cs ::
      match i.kind with
      | .argument | .conversion => lookThroughValue cs
      | _ => []

/-- The nodes the first child in the value slot is read through; none without one. -/
def lookThroughValue : List (Slot × Operation) → List Operation
  | [] => []
  | (s, c) :: rest => if s == .value then lookThrough c else lookThroughValue rest

end

end Operation

namespace PointsToFacts

variable (prog : Program) (f : PointsToFacts)

mutual

/-- An operation none of whose looked-through nodes is overridden points where the parameter
it reads points, and nowhere when it reads none. -/
theorem ofOp_eq_of_lookThrough : ∀ op : Operation,
    (∀ n ∈ op.lookThrough, f.nodes.lookup n.info.uid = none) →
      f.ofOp prog op = op.referencedParameter.elim .noLocation (f.ofParam prog)
  | .node i cs, h => by
    have hown : f.nodes.lookup i.uid = none := h _ List.mem_cons_self
    simp only [ofOp, hown, Operation.referencedParameter]
    -- the two walks split on the kind alike; only arguments and conversions go deeper
    cases hk : i.kind
    case parameterReference => cases i.parameter <;> rfl
    case argument | conversion =>
      refine ofValue_eq_of_lookThrough cs fun n hn => h n ?_
      simp [Operation.lookThrough, hk, hn]
    all_goals rfl

/-- The value child of a node, read through as above. -/
theorem ofValue_eq_of_lookThrough : ∀ cs : List (Slot × Operation),
    (∀ n ∈ Operation.lookThroughValue cs, f.nodes.lookup n.info.uid = none) →
      f.ofValue prog cs = (Operation.valueParameter cs).elim .noLocation (f.ofParam prog)
  | [], _ => rfl
  | (s, c) :: rest, h => by
    by_cases hs : s = .value
    · subst hs
      simp only [ofValue, Operation.valueParameter, beq_self_eq_true, if_true]
      exact ofOp_eq_of_lookThrough c fun n hn => h n (by simpa [Operation.lookThroughValue] using hn)
    · have hs' : (s == .value) = false := beq_eq_false_iff_ne.mpr hs
      simp only [ofValue, Operation.valueParameter, hs', Bool.false_eq_true, if_false]
      exact ofValue_eq_of_lookThrough rest fun n hn => h n (by simpa [Operation.lookThroughValue, hs'] using hn)

end

end PointsToFacts

namespace Procedure

variable (v : Procedure)

/-- With parameters pointing to their own cells and no override on the nodes looked through,
an operation's locations are the cell of the parameter it reads when that parameter is
trackable, and nothing otherwise. -/
theorem locations_of_lookThrough (op : Operation)
    (hn : ∀ n ∈ op.lookThrough, v.facts.pointsTo.nodes.lookup n.info.uid = none)
    (hpt : v.facts.pointsTo.params = []) :
    v.locations op =
      match op.referencedParameter with
      | some p => if v.isTrackable (some p) then [.param p] else []
      | none => [] := by
  have hpoints := PointsToFacts.ofOp_eq_of_lookThrough v.prog v.facts.pointsTo op hn
  cases hp : op.referencedParameter with
  | none =>
    rw [hp] at hpoints
    simp [locations, hpoints, PointsTo.noLocation]
  | some p =>
    rw [hp] at hpoints
    -- a value-typed parameter points nowhere, and is not trackable either
    by_cases href : v.prog.paramIsReference p = true
    · have hknown : v.facts.pointsTo.ofOp v.prog op = ⟨.known, [.param p]⟩ := by
        rw [hpoints]
        simp [PointsToFacts.ofParam, hpt, href, PointsTo.known, PointsTo.ofList, Location.dedup]
      have ht : v.tracks (.param p) = v.isTrackable (some p) := rfl
      simp only [locations, hknown, List.filter_cons, List.filter_nil, ht]
    · have hnt : v.isTrackable (some p) = false := by simp [isTrackable, href]
      simp [locations, hpoints, PointsToFacts.ofParam, hpt, href, hnt, PointsTo.noLocation]

/-- Looking through arguments and conversions, what an operation points to and the parameter it
reads agree. -/
theorem lookThrough_pointsTo_agrees (op : Operation)
    (hn : ∀ n ∈ op.lookThrough, v.facts.pointsTo.nodes.lookup n.info.uid = none) :
    v.facts.pointsTo.ofOp v.prog op =
        op.referencedParameter.elim .noLocation (v.facts.pointsTo.ofParam v.prog) ∧
      (v.facts.pointsTo.params = [] →
        v.locations op =
          match op.referencedParameter with
          | some p => if v.isTrackable (some p) then [.param p] else []
          | none => []) :=
  ⟨PointsToFacts.ofOp_eq_of_lookThrough v.prog v.facts.pointsTo op hn, v.locations_of_lookThrough op hn⟩

/-- A method `f` of a reference type `T` with one parameter `x : T`, where the points-to facts
override only node `7`. -/
def lookThroughFacts : Facts where
  program :=
    { types := #[{ name := "T" }],
      methods := #[{ name := "f", owner := 0, params := [{ name := "x", type := 0 }] }] }
  pointsTo := { nodes := [(7, .unknown)] }

/-- `x` converted and passed as an argument. -/
def convertedArgument : Operation :=
  .node { uid := 3, kind := .argument }
    [(.value, .node { uid := 2, kind := .conversion }
      [(.value, .node { uid := 1, kind := .parameterReference, parameter := some ⟨0, 0⟩ } [])])]

/-- The converted argument points to `x`'s own cell, and that cell is its only location. -/
theorem lookThrough_pointsTo_agrees_convertedArgument :
    (∀ n ∈ convertedArgument.lookThrough,
        (Procedure.new lookThroughFacts {} (Graph.new 0)).facts.pointsTo.nodes.lookup n.info.uid = none) ∧
      (Procedure.new lookThroughFacts {} (Graph.new 0)).facts.pointsTo.ofOp lookThroughFacts.program
          convertedArgument = .known [.param ⟨0, 0⟩] ∧
      (Procedure.new lookThroughFacts {} (Graph.new 0)).locations convertedArgument = [.param ⟨0, 0⟩] := by
  have hn : ∀ n ∈ convertedArgument.lookThrough,
      (Procedure.new lookThroughFacts {} (Graph.new 0)).facts.pointsTo.nodes.lookup n.info.uid = none := by
    decide
  obtain ⟨hpoints, hlocations⟩ := lookThrough_pointsTo_agrees _ convertedArgument hn
  refine ⟨hn, ?_, ?_⟩
  · rw [show lookThroughFacts.program = (Procedure.new lookThroughFacts {} (Graph.new 0)).prog from rfl,
      hpoints]
    decide
  · rw [hlocations rfl]
    decide

end Procedure

end NullGuard
