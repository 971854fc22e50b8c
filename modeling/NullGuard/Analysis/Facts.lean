import NullGuard.Graph.Basic
import NullGuard.Location.Facts
import NullGuard.Text.Lowercase

/-!
# The facts an analysis consumes

`Facts` bundles what the analysis takes from outside: the program, the control-flow graph of
each procedure that has one, points-to and nullability facts, the registry of well-known types
by name, and, optionally, the parameters known to carry the validated-not-null contract.

Without that list, a parameter carries the contract when one of its attributes names the
configured attribute class (`attributeMatches`): the last dotted segment of the attribute,
lower-cased, equals the lower-cased class name or that name without a trailing `attribute`.
-/

namespace NullGuard

/-- The name of the string type. -/
def stringTypeName : String := "System.String"

/-- The name of the exception type. -/
def exceptionTypeName : String := "System.Exception"

/-- The name of the serialization-info type. -/
def serializationInfoTypeName : String := "System.Runtime.Serialization.SerializationInfo"

/-- The standard well-known types: string, exception and serialization info. -/
def standardTypes : List TypeInfo :=
  [{ name := stringTypeName }, { name := exceptionTypeName }, { name := serializationInfoTypeName }]

/-- The registry of a program whose first types are `standardTypes`. -/
def standardRegistry : List (String × TypeId) :=
  [(stringTypeName, 0), (exceptionTypeName, 1), (serializationInfoTypeName, 2)]

/-- A registry of types by name, a later type of the same name replacing an earlier one. -/
def registryOf (prog : Program) (ts : List TypeId) : List (String × TypeId) :=
  ts.reverse.map fun t => ((prog.type t).name, t)

/-- The part of an attribute name after its last dot. -/
def lastSegment (attr : String) : String :=
  match (attr.splitOn ".").getLast? with
  | some s => s
  | none => attr

/-- Whether a list of attribute names carries the attribute class `attributeName`, compared
without regard to case and with or without the `attribute` suffix. -/
def attributeMatches (attributeName : String) (attrs : List String) : Bool :=
  let full := Text.lower attributeName
  let short := if full.endsWith "attribute" then (full.dropEnd 9).toString else full
  attrs.any fun a =>
    let n := Text.lower (lastSegment a)
    n == full || n == short

/-- Everything an analysis consumes from the outside world. -/
structure Facts where
  program : Program
  /-- Control-flow graphs by procedure, the newest registration first. -/
  graphs : List (MethodId × Graph) := []
  pointsTo : PointsToFacts := {}
  nulls : NullFacts := {}
  /-- Well-known types by name, the first entry for a name winning; none by default, so that
  no idiom is recognised. -/
  wellKnown : List (String × TypeId) := []
  /-- The parameters carrying the validated-not-null contract, when known outright. -/
  contractParams : Option (List ParamRef) := none
  /-- The seconds elapsed since the solve of a procedure began, as read before each of its
  visits; no time passes by default. -/
  clock : MethodId → Nat → Binary64 := fun _ _ => .finite false 0 Binary64.minExp
  deriving Inhabited

namespace Facts

/-- The control-flow graph of a procedure, if it has one. -/
def graph? (f : Facts) (m : MethodId) : Option Graph := f.graphs.lookup m

/-- Register a graph for its procedure, replacing any earlier one. -/
def register (f : Facts) (g : Graph) : Facts := { f with graphs := (g.method, g) :: f.graphs }

/-- The well-known type of a name. -/
def wellKnownType (f : Facts) (name : String) : Option TypeId := f.wellKnown.lookup name

/-- Whether a parameter carries the validated-not-null contract, the configured attribute
class naming it when no list is given. -/
def hasContract (f : Facts) (attributeName : String) (p : ParamRef) : Bool :=
  match f.contractParams with
  | some ps => ps.contains p
  | none => attributeMatches attributeName (((f.program.param? p).map (·.attributes)).getD [])

end Facts

end NullGuard
