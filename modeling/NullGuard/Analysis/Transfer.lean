import NullGuard.Analysis.Facts
import NullGuard.Config.Options
import NullGuard.Dataflow.Solver
import NullGuard.Graph.Check
import NullGuard.Lattice.State
import NullGuard.Summary.Usage

/-!
# The transfer function

A `Procedure` holds what the transfer function of one procedure needs. It tracks the
reference-typed parameters of the procedure and, for a nested function, of every enclosing
procedure (`Procedure.tracks`). On entry each tracked parameter is `notValidated`, or
`validated` when it carries the validated-not-null contract (`Procedure.initialState`).

A block is transferred operation by operation, each tree in post-order. Calls are where
validation happens:

* a static single-parameter predicate of the string type whose name has the null-check
  prefix validates its argument;
* a constructor, or the serialization hook, of a type deriving from the exception type whose
  first parameter has the serialization-info type validates its first argument;
* a call of a private callee whose summary lists the parameter an argument is bound to makes
  that argument a hazard if it is still unvalidated;
* a call of a nested function attributes the nested function's hazards on enclosing
  parameters to the caller, when those parameters are still hazardous here.

After each operation, if its parent dereferences its value and the value may be an
unvalidated parameter not known to be non-null, a hazard is recorded in the procedure's
`HazardLog`. At the exit block, when guarding by an unhandled throw counts as validation, a
parameter that is non-null at the normal exit but may be null at an unhandled throw is
validated.
-/

namespace NullGuard

/-- The constants of the transfer function of one procedure. -/
structure Procedure where
  facts : Facts
  options : Options
  graph : Graph
  method : MethodId
  owners : List MethodId
  reconciles : Bool
  stringType : Option TypeId
  exceptionType : Option TypeId
  serializationType : Option TypeId

/-- Transfer steps: the procedure's hazard log over the monad that serves summaries. -/
abbrev VisitM (m : Type → Type) := StateT HazardLog m

namespace Procedure

/-- The procedure of a graph, under given facts and options. -/
def new (facts : Facts) (options : Options) (g : Graph) : Procedure :=
  { facts, options, graph := g, method := g.method,
    owners := facts.program.enclosing g.method,
    reconciles := options.validatedViaUnhandledThrow && !g.unhandledThrowBlocks.isEmpty,
    stringType := facts.wellKnownType stringTypeName,
    exceptionType := facts.wellKnownType exceptionTypeName,
    serializationType := facts.wellKnownType serializationInfoTypeName }

variable (v : Procedure)

/-- The program analysed. -/
def prog : Program := v.facts.program

/-! ### Tracking -/

/-- A parameter is trackable when it has a reference type and belongs to the procedure or to
one enclosing it. -/
def isTrackable : Option ParamRef → Bool
  | some p => v.prog.paramIsReference p && v.owners.contains p.method
  | none => false

/-- The tracked locations: those of trackable parameters. -/
def tracks (l : Location) : Bool := v.isTrackable l.parameter?

/-- The trackable parameters: of the procedure, then of each enclosing one. -/
def trackableParameters : List ParamRef :=
  v.owners.flatMap fun m => (v.prog.paramsOf m).filter v.prog.paramIsReference

/-- The empty state of the procedure. -/
def emptyState : AnalysisState := AnalysisState.empty v.tracks

/-- The solver's domain: states of the procedure joined pointwise. -/
def domain : Dataflow.Domain AnalysisState :=
  { bottom := v.emptyState, join := AnalysisState.merge, same := AnalysisState.equiv }

/-! ### Locations -/

/-- The locations of a parameter's entry value: its known locations, its own cell when its
value is unknown, none when it has no location. -/
def paramLocations (p : ParamRef) : List Location :=
  let pt := v.facts.pointsTo.ofParam v.prog p
  match pt.kind with
  | .known => pt.locations
  | .unknown => [.param p]
  | .noLocation => []

/-- The tracked locations an operation's value may refer to. An unknown value falls back to
the locations of the trackable parameter the operation reads, if it reads one. -/
def locations (op : Operation) : List Location :=
  let pt := v.facts.pointsTo.ofOp v.prog op
  match pt.kind with
  | .known => pt.locations.filter v.tracks
  | .noLocation => []
  | .unknown =>
    match op.referencedParameter with
    | some p =>
      if v.isTrackable (some p) then
        match v.paramLocations p with
        | [] => [.param p]
        | ls => Location.dedup ls
      else []
    | none => []

/-- The order in which locations are reported: parameters by ordinal and name first, then
other cells by their key's text. -/
def locationBefore (a b : Location) : Bool :=
  match a.parameter?, b.parameter? with
  | some p, some q =>
    p.ordinal < q.ordinal || (p.ordinal == q.ordinal && decide (v.prog.paramName p < v.prog.paramName q))
  | some _, none => true
  | none, some _ => false
  | none, none =>
    match a, b with
    | .cell k _, .cell l _ => decide (k.render < l.render)
    | _, _ => false

/-- The locations an operation's value may refer to that are still hazardous, in order. -/
def notValidated (op : Operation) (s : AnalysisState) : List Location :=
  ((v.locations op).filter s.isHazardous).mergeSort fun a b => !v.locationBefore b a

/-- The entry state. -/
def initialState : AnalysisState :=
  v.trackableParameters.foldl (fun s p =>
    match (v.facts.pointsTo.ofParam v.prog p).kind with
    | .noLocation => s
    | _ =>
      let value := if v.facts.hasContract v.options.validatedNotNullAttribute p then .validated
        else .notValidated
      s.setAll (v.paramLocations p) value) v.emptyState

/-! ### Hazards -/

/-- Record a hazard at a site for the parameter of each location. -/
def record {m : Type → Type} [Monad m] (site : Option Span) (ls : List Location) : VisitM m Unit :=
  ls.forM fun l => match l.parameter? with
    | some p => modify fun log => (log.record p site).2
    | none => pure ()

/-- Record the hazardous locations of a dereferenced operation, unless it is known to be
non-null there. -/
def checkHazard {m : Type → Type} [Monad m] (op : Operation) (ls : List Location) : VisitM m Unit :=
  if ls.isEmpty || v.facts.nulls.ofNode op.info.uid == .notNull then pure ()
  else record op.info.span ls

/-- Validate the locations an operation's value may refer to. -/
def validate (op : Operation) (s : AnalysisState) : AnalysisState :=
  s.setAll (v.notValidated op s) .validated

/-! ### Calls -/

/-- The callee parameter an argument is bound to: its own, else the one of its position. -/
def boundParameter (callee : MethodId) (args : List Operation) (i : Nat) (arg : Operation) :
    Option ParamRef :=
  match arg.info.parameter with
  | some p => some p
  | none => if i < args.length then v.prog.parameterAt callee i else none

/-- A call of a method that is not a nested function. -/
def callRegular {m : Type → Type} [Monad m] (summaryOf : Option (MethodId → m (Option UsageMap)))
    (callee : MethodId) (args : List Operation) (s : AnalysisState) : VisitM m AnalysisState := do
  let info := v.prog.method callee
  if v.stringType.isSome && v.stringType == some info.owner then
    if info.isStatic && info.name.startsWith v.options.nullCheckPrefix && info.params.length == 1 &&
        args.length == 1 then
      return match args with
        | a :: _ => v.validate a s
        | [] => s
    return s
  if !info.params.isEmpty && !args.isEmpty && v.exceptionType.isSome &&
      v.prog.derivesFrom info.owner v.exceptionType then
    let first := (info.params.head?.map (·.type))
    if v.serializationType.isSome && first == v.serializationType then
      if info.kind == .constructor || (info.kind == .ordinary &&
          Text.lower info.name == Text.lower v.options.serializationMethodName) then
        return match args with
          | a :: _ => v.validate a s
          | [] => s
    return s
  match summaryOf with
  | none => return s
  | some lookup =>
    if v.prog.methodVisible callee then return s
    match ← liftM (lookup callee) with
    | none => return s
    | some summary =>
      if summary.isEmpty then return s
      for (arg, i) in args.zip (List.range args.length) do
        match v.boundParameter callee args i arg with
        | some p => if summary.contains p then v.checkHazard arg (v.notValidated arg s)
        | none => pure ()
      return s

/-- A call of a nested function: its hazards on parameters still hazardous here, and not yet
recorded here, are recorded at the nested function's sites. -/
def callNested {m : Type → Type} [Monad m] (summaryOf : Option (MethodId → m (Option UsageMap)))
    (callee : MethodId) (s : AnalysisState) : VisitM m AnalysisState := do
  match summaryOf with
  | none => return s
  | some lookup =>
    match ← liftM (lookup callee) with
    | none => return s
    | some summary =>
      if summary.isEmpty then return s
      let hazardous := s.hazardous.mergeSort fun a b => !v.locationBefore b a
      if hazardous.isEmpty then return s
      for (p, site) in summary.entries do
        if !(← get).contains p then
          record site (hazardous.filter fun l => l.parameter? == some p)
      return s

/-! ### Blocks -/

/-- Visit one operation: its call, if it is one, then the hazard check when its parent
dereferences it. -/
def visit {m : Type → Type} [Monad m] (summaryOf : Option (MethodId → m (Option UsageMap)))
    (s : AnalysisState) (step : Operation × Bool) : VisitM m AnalysisState := do
  let (op, deref) := step
  let s ← match op.kind, op.info.method with
    | .invocation, some callee =>
      if v.prog.isNested callee then v.callNested summaryOf callee s
      else v.callRegular summaryOf callee op.arguments s
    | .objectCreation, some callee => v.callRegular summaryOf callee op.arguments s
    | _, _ => pure s
  if deref then v.checkHazard op (v.notValidated op s)
  return s

/-- At the exit: validate the parameters guarded by an unhandled throw. -/
def reconcile (s : AnalysisState) : AnalysisState :=
  v.trackableParameters.foldl (fun s p =>
    let escaped := (v.paramLocations p).filter s.isHazardous
    if escaped.isEmpty || v.facts.nulls.atExit p != .notNull then s
    else match v.facts.nulls.atThrows p with
      | .unset | .notNull => s
      | .maybeNull => s.setAll escaped .validated) s

/-- The transfer function of a block. -/
def transfer {m : Type → Type} [Monad m] (summaryOf : Option (MethodId → m (Option UsageMap)))
    (b : BlockId) (s : AnalysisState) : VisitM m AnalysisState := do
  let blk := v.graph.block b
  let s ← (blk.ops.flatMap fun top => top.visits false).foldlM (v.visit summaryOf) s
  return if blk.role == .exit && v.reconciles then v.reconcile s else s

end Procedure

end NullGuard
