import NullGuard.Location.Basic
import NullGuard.Operation.Basic

/-!
# Points-to and nullability facts

The facts an analysis takes from its companion analyses, given explicitly.

`PointsToFacts` knows parameters: a parameter reference points to the parameter's entry cell
(no location for a value-typed parameter), arguments and conversions point where their value
does, and everything else points nowhere, unless an override for that very node (by its
`uid`) or for that parameter says otherwise. `alias` makes a node point where a parameter
does.

`NullFacts` holds the nullability of nodes, and of parameters at the normal exit and at the
unhandled throws; everything not given is `unset`.
-/

namespace NullGuard

/-- Points-to overrides for nodes (by `uid`) and for parameters, newest first. -/
structure PointsToFacts where
  nodes : List (Nat × PointsTo) := []
  params : List (ParamRef × PointsTo) := []
  deriving Inhabited

namespace PointsToFacts

/-- What a parameter points to on entry: its override, else its own cell when it has a
reference type, else no location. -/
def ofParam (prog : Program) (f : PointsToFacts) (p : ParamRef) : PointsTo :=
  match f.params.lookup p with
  | some v => v
  | none => if prog.paramIsReference p then .known [.param p] else .noLocation

/-- Override what a node points to. -/
def set (f : PointsToFacts) (uid : Nat) (v : PointsTo) : PointsToFacts :=
  { f with nodes := (uid, v) :: f.nodes }

/-- Override what a parameter points to. -/
def setParam (f : PointsToFacts) (p : ParamRef) (v : PointsTo) : PointsToFacts :=
  { f with params := (p, v) :: f.params }

/-- Make a node point where a parameter points on entry. -/
def aliasParam (prog : Program) (f : PointsToFacts) (uid : Nat) (p : ParamRef) : PointsToFacts :=
  f.set uid (f.ofParam prog p)

mutual

/-- What an operation points to. -/
def ofOp (prog : Program) (f : PointsToFacts) : Operation → PointsTo
  | .node i cs =>
    match f.nodes.lookup i.uid with
    | some v => v
    | none =>
      match i.kind, i.parameter with
      | .parameterReference, some p => f.ofParam prog p
      | .argument, _ | .conversion, _ => ofValue prog f cs
      | _, _ => .noLocation

/-- What the first child in the value slot points to; no location without one. -/
def ofValue (prog : Program) (f : PointsToFacts) : List (Slot × Operation) → PointsTo
  | [] => .noLocation
  | (s, c) :: rest => if s == .value then ofOp prog f c else ofValue prog f rest

end

end PointsToFacts

/-- Nullability of a value where it is evaluated. -/
inductive Nullability where
  | notNull
  | maybeNull
  | unset
  deriving DecidableEq, Inhabited

/-- The written name of a nullability. -/
def Nullability.text : Nullability → String
  | .notNull => "not-null"
  | .maybeNull => "maybe-null"
  | .unset => "unset"

/-- Nullability facts for nodes (by `uid`) and for parameters at exit and at unhandled
throws, newest first. -/
structure NullFacts where
  nodes : List (Nat × Nullability) := []
  exits : List (ParamRef × Nullability × Nullability) := []
  deriving Inhabited

namespace NullFacts

/-- The nullability of a node. -/
def ofNode (f : NullFacts) (uid : Nat) : Nullability := (f.nodes.lookup uid).getD .unset

/-- The nullability of a parameter on entry to the exit block. -/
def atExit (f : NullFacts) (p : ParamRef) : Nullability :=
  ((f.exits.lookup p).map (·.1)).getD .unset

/-- The nullability of a parameter merged over the unhandled throws. -/
def atThrows (f : NullFacts) (p : ParamRef) : Nullability :=
  ((f.exits.lookup p).map (·.2)).getD .unset

/-- Record the nullability of a node. -/
def set (f : NullFacts) (uid : Nat) (v : Nullability) : NullFacts :=
  { f with nodes := (uid, v) :: f.nodes }

/-- Record a parameter's nullability at the exit and at the unhandled throws. -/
def setExit (f : NullFacts) (p : ParamRef) (atExit atThrows : Nullability) : NullFacts :=
  { f with exits := (p, atExit, atThrows) :: f.exits }

end NullFacts

end NullGuard
