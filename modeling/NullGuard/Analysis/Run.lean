import NullGuard.Analysis.Transfer
import NullGuard.Graph.Render
import NullGuard.Summary.Cache

/-!
# Analysis runs

`Analysis.resultOf` gives the outcome of a procedure, computed at most once per cache: the
body of a procedure is analysed while the procedure sits on the call chain, and summaries of
its callees are requested from within, through `Analysis.summaryOf`.

* A procedure without a graph, with a malformed graph, or whose fixed point does not fit the
  iteration budget or the time budget has an incomplete outcome with no hazards.
* A callee qualifies for a summary when it is a nested function, or is neither visible outside
  its assembly nor overridable, and has a graph.
* A request for a procedure already on the call chain gets the empty summary.
* A request made when the chain is longer than the call-chain limit uses a stored outcome if
  there is one; otherwise every procedure on the chain is marked as cut off and the request
  gets the empty summary. The outcome of a procedure marked cut off is returned but not
  stored, so that every stored outcome is the one the procedure has when analysed alone.

`Analysis.runAll` performs a sequence of runs sharing one cache.
-/

namespace NullGuard

/-- The outcome of analysing one procedure. -/
structure Outcome where
  method : MethodId
  usages : UsageMap := {}
  complete : Bool := false
  dataflow : Option (Dataflow.Solution AnalysisState) := none

/-- The cache of outcomes; an absent outcome is the answer to a cyclic request. -/
abbrev OutcomeCache := SummaryCache MethodId (Option Outcome)

/-- The state of a session: the shared cache, the call chain (outermost first) and the
procedures marked as cut off by the call-chain limit. -/
structure Session where
  cache : OutcomeCache := {}
  chain : List MethodId := []
  cutOff : List MethodId := []

/-- Analyses run in a session and cannot fail. -/
abbrev SessionM := StateM Session

/-- Analyses raise nothing: their failure type is empty. -/
instance : MonadExceptOf Empty SessionM where
  throw e := nomatch e
  tryCatch x _ := x

namespace Analysis

/-- The facts and options of an analysis. -/
structure Env where
  facts : Facts
  options : Options

/-- The program analysed. -/
def Env.prog (env : Env) : Program := env.facts.program

variable (env : Env)

/-- Whether a callee's summary may be used. -/
def isSummarizable (callee : MethodId) : Bool :=
  (env.prog.isNested callee || !(env.prog.methodVisible callee || env.prog.isOverridable callee)) &&
    (env.facts.graph? callee).isSome

/-- Analyse the body of a procedure, requesting callee summaries through `summaryOf`. -/
def analyzeBody (summaryOf : MethodId → SessionM (Option UsageMap)) (p : MethodId) :
    SessionM Outcome := do
  match env.facts.graph? p with
  | none => pure { method := p }
  | some g =>
    match g.validate (env.prog.methodRepr p) with
    | .error _ => pure { method := p }
    | .ok () =>
      let v := Procedure.new env.facts env.options g
      let lookup := if env.options.interprocedural then some summaryOf else none
      let (res, log) ← (Dataflow.solveTimed g v.domain (v.transfer lookup) v.initialState
        env.options.maxIterations.toNat env.options.maxSeconds (env.facts.clock p)).run {}
      match res with
      | .error _ => pure { method := p }
      | .ok sol =>
        pure { method := p, usages := UsageMap.ofLog env.prog log, complete := true, dataflow := some sol }

/-- The summary of a callee, with `resolve` giving the outcomes of procedures: `none` when the
callee does not qualify. -/
def summaryOf (resolve : MethodId → SessionM (Option Outcome)) (callee : MethodId) :
    SessionM (Option UsageMap) := do
  if !isSummarizable env callee then return none
  let s ← get
  if (s.chain.length : Int) > env.options.maxCallChain then
    match s.cache.get? callee with
    | some (some r) => return some r.usages
    | _ =>
      set { s with cutOff := s.cutOff ++ s.chain.filter (!s.cutOff.contains ·) }
      return some UsageMap.empty
  match ← resolve callee with
  | some r => return some r.usages
  | none => return some UsageMap.empty

/-- Put a procedure on the call chain, clearing its cut-off mark. -/
def enter (p : MethodId) : SessionM Unit :=
  modify fun s => { s with chain := s.chain ++ [p], cutOff := s.cutOff.erase p }

/-- Take a procedure off the call chain, clearing its cut-off mark. -/
def leave (p : MethodId) : SessionM Unit :=
  modify fun s => { s with chain := s.chain.dropLast, cutOff := s.cutOff.erase p }

/-- The outcome of a procedure through the cache, within `fuel` nested analyses; `none` when
the procedure is already on the call chain. -/
def resultOf : Nat → MethodId → SessionM (Option Outcome)
  | 0, _ => pure none
  | fuel + 1, p => do
    if (← get).chain.contains p then return none
    SummaryCache.getOrCompute (do return (← get).cache) (fun c => modify fun s => { s with cache := c })
      p none do
        enter p
        let r ← analyzeBody env (summaryOf env (resultOf fuel)) p
        let cut := (← get).cutOff.contains p
        leave p
        pure (if cut then .transient (some r) else .keep (some r))

/-- The outcome of a procedure requested from outside; incomplete when the request re-enters a
procedure being computed. Every procedure on the call chain below the first has a graph and
appears once, so the chain never outgrows the registered graphs and the nesting bound is never
reached. -/
def analyze (p : MethodId) : SessionM Outcome := do
  match ← resultOf env (env.facts.graphs.length + 1) p with
  | some r => pure r
  | none => pure { method := p }

end Analysis

/-- One run: its options (the defaults when absent), the procedures to analyse in order,
and whether it starts from an empty cache. -/
structure RunSpec where
  options : Option (List (String × Setting)) := none
  methods : List MethodId := []
  freshCache : Bool := false

/-- One analysed procedure: its outcome and the cache right after it. -/
structure Step where
  outcome : Outcome
  cache : OutcomeCache

namespace Analysis

/-- The options of a run. -/
def optionsOf : Option (List (String × Setting)) → Except OptionError Options
  | none => .ok {}
  | some entries => Options.ofMapping entries

/-- Analyse procedures in order with the given cache, each from an empty call chain. -/
def runMethods (facts : Facts) (options : Options) :
    List MethodId → OutcomeCache → List Step × OutcomeCache
  | [], cache => ([], cache)
  | p :: ps, cache =>
    let (out, s) := (analyze { facts, options } p).run { cache }
    let (rest, cache) := runMethods facts options ps s.cache
    ({ outcome := out, cache := s.cache } :: rest, cache)

/-- Perform one run with a cache: the options are read first, even for a run that analyses
nothing; the error of bad options, or the steps. -/
def runOne (facts : Facts) (spec : RunSpec) (cache : OutcomeCache) :
    Except OptionError (List Step) × OutcomeCache :=
  let cache := if spec.freshCache then {} else cache
  match optionsOf spec.options with
  | .error e => (.error e, cache)
  | .ok options =>
    let (steps, cache) := runMethods facts options spec.methods cache
    (.ok steps, cache)

/-- Perform runs in order, all sharing one cache. -/
def runAll (facts : Facts) (specs : List RunSpec) : List (Except OptionError (List Step)) :=
  (specs.foldl (fun (acc : List (Except OptionError (List Step)) × OutcomeCache) spec =>
    let (r, cache) := runOne facts spec acc.2
    (acc.1 ++ [r], cache)) ([], {})).1

end Analysis

end NullGuard
