/-!
# Programs: types, methods and parameters

The symbols an analysis reads: named types with an optional base and containing type,
methods with their parameters, kind, modifiers and enclosing method, all held in one
`Program`. Types and methods are referred to by their index in the program (`TypeId`,
`MethodId`), so that two distinct symbols are never confused even when their names agree;
a parameter is referred to by its method and ordinal (`ParamRef`).
-/

namespace NullGuard

/-- Declared accessibility of a type or member, in the terms of the common language
infrastructure: everywhere (public), the type family (protected), family or assembly
(protected internal), the assembly (internal), family and assembly (private protected), and
the declaring type only (private). -/
inductive Access where
  | world
  | family
  | familyOrAssembly
  | assembly
  | familyAndAssembly
  | declaringType
  deriving DecidableEq, Inhabited

/-- An accessibility is external when code outside the defining assembly may use it. -/
def Access.isExternal : Access → Bool
  | .world | .family | .familyOrAssembly => true
  | _ => false

/-- What kind of procedure a method is. -/
inductive MethodKind where
  | ordinary
  | constructor
  | lambda
  | localFunction
  deriving DecidableEq, Inhabited

/-- The index of a type in its program. -/
abbrev TypeId := Nat

/-- The index of a method in its program. -/
abbrev MethodId := Nat

/-- A named type. -/
structure TypeInfo where
  name : String
  isReference : Bool := true
  base : Option TypeId := none
  access : Access := .world
  containing : Option TypeId := none
  deriving Inhabited

/-- A formal parameter: its name, its type and the attribute names it carries. -/
structure ParamInfo where
  name : String
  type : TypeId
  attributes : List String := []
  deriving Inhabited

/-- A procedure: the unit of analysis. -/
structure MethodInfo where
  name : String
  owner : TypeId
  params : List ParamInfo := []
  kind : MethodKind := .ordinary
  isStatic : Bool := false
  isVirtual : Bool := false
  isAbstract : Bool := false
  isOverride : Bool := false
  access : Access := .world
  outer : Option MethodId := none
  deriving Inhabited

/-- A parameter, named by its method and its ordinal there. -/
structure ParamRef where
  method : MethodId
  ordinal : Nat
  deriving DecidableEq, Inhabited

/-- The symbols of a program. -/
structure Program where
  types : Array TypeInfo := #[]
  methods : Array MethodInfo := #[]
  deriving Inhabited

namespace Program

/-- The type with a given index (a default one when there is none). -/
def type (p : Program) (t : TypeId) : TypeInfo := p.types[t]?.getD default

/-- The method with a given index (a default one when there is none). -/
def method (p : Program) (m : MethodId) : MethodInfo := p.methods[m]?.getD default

/-- The parameter a reference names, if its method has that many parameters. -/
def param? (p : Program) (r : ParamRef) : Option ParamInfo := (p.method r.method).params[r.ordinal]?

/-- The name of a parameter. -/
def paramName (p : Program) (r : ParamRef) : String := ((p.param? r).map (·.name)).getD ""

/-- Whether a parameter has a reference type: only those are tracked. -/
def paramIsReference (p : Program) (r : ParamRef) : Bool :=
  ((p.param? r).map fun info => (p.type info.type).isReference).getD false

/-- The references to the parameters of a method, in ordinal order. -/
def paramsOf (p : Program) (m : MethodId) : List ParamRef :=
  (List.range (p.method m).params.length).map fun i => ⟨m, i⟩

/-- The parameter at an ordinal, if the ordinal is in range. -/
def parameterAt (p : Program) (m : MethodId) (ordinal : Int) : Option ParamRef :=
  if 0 ≤ ordinal ∧ ordinal.toNat < (p.method m).params.length then some ⟨m, ordinal.toNat⟩
  else none

/-! ### Types -/

/-- Follow base types from `t` for at most `fuel` steps, stopping at the first repeat. -/
def baseWalk (p : Program) : Nat → List TypeId → TypeId → List TypeId
  | 0, seen, _ => seen.reverse
  | fuel + 1, seen, t =>
    if seen.contains t then seen.reverse
    else match (p.type t).base with
      | some b => p.baseWalk fuel (t :: seen) b
      | none => (t :: seen).reverse

/-- A type followed by its base types, each once: the chain stops at the first repeat. -/
def basesAndSelf (p : Program) (t : TypeId) : List TypeId :=
  p.baseWalk (p.types.size + 1) [] t

/-- Whether `c` is `t` or one of its base types. -/
def derivesFrom (p : Program) (t : TypeId) : Option TypeId → Bool
  | some c => (p.basesAndSelf t).contains c
  | none => false

/-- Whether a type and every type containing it are externally accessible. -/
def typeVisibleFuel (p : Program) : Nat → TypeId → Bool
  | 0, _ => true
  | fuel + 1, t =>
    let info := p.type t
    info.access.isExternal &&
      match info.containing with
      | some c => p.typeVisibleFuel fuel c
      | none => true

/-- Whether a type is visible outside its assembly: it and all its containing types are. -/
def typeVisible (p : Program) (t : TypeId) : Bool := p.typeVisibleFuel (p.types.size + 1) t

/-! ### Methods -/

/-- Lambdas and local functions are nested functions. -/
def isNested (p : Program) (m : MethodId) : Bool :=
  match (p.method m).kind with
  | .lambda | .localFunction => true
  | _ => false

/-- A method is visible outside its assembly when it is not nested, is externally
accessible, and its containing type is visible. -/
def methodVisible (p : Program) (m : MethodId) : Bool :=
  !p.isNested m && (p.method m).access.isExternal && p.typeVisible (p.method m).owner

/-- A method may be overridden when it is virtual, abstract or an override. -/
def isOverridable (p : Program) (m : MethodId) : Bool :=
  let info := p.method m
  info.isVirtual || info.isAbstract || info.isOverride

/-- Follow enclosing methods from `m` for at most `fuel` steps. -/
def enclosingFuel (p : Program) : Nat → MethodId → List MethodId
  | 0, _ => []
  | fuel + 1, m =>
    m :: match (p.method m).outer with
      | some o => p.enclosingFuel fuel o
      | none => []

/-- A method followed by every enclosing method, innermost first. -/
def enclosing (p : Program) (m : MethodId) : List MethodId :=
  p.enclosingFuel (p.methods.size + 1) m

/-! ### Rendering -/

/-- `TypeSymbol(<name>)`. -/
def typeRepr (p : Program) (t : TypeId) : String := "TypeSymbol(" ++ (p.type t).name ++ ")"

/-- `MethodSymbol(<type name>.<name>)`. -/
def methodRepr (p : Program) (m : MethodId) : String :=
  "MethodSymbol(" ++ (p.type (p.method m).owner).name ++ "." ++ (p.method m).name ++ ")"

/-- `ParameterSymbol(<method name>.<name>)`. -/
def paramRepr (p : Program) (r : ParamRef) : String :=
  "ParameterSymbol(" ++ (p.method r.method).name ++ "." ++ p.paramName r ++ ")"

end Program

end NullGuard
