import NullGuard.Operation.Basic

/-!
# Building operation trees

Builders for well-formed trees. Each new node takes the next `uid` from the counter of
`BuildM`, so that every node of every tree built in one session is distinct. Builders set the
span text themselves: a parameter reference shows the parameter's name, a local or member
reference its name, an invocation the callee's name, a literal its text. A call wraps each
plain value in an argument node bound to the callee's parameter of the same ordinal (none when
the callee has fewer parameters); values that are already argument nodes are kept.
-/

namespace NullGuard

/-- Why a tree could not be built. -/
inductive BuildError where
  /-- A member reference was asked for with a kind that is not a member reference kind. -/
  | notMemberKind (kind : OpKind)
  deriving DecidableEq

/-- The text of a build error. -/
def BuildError.message : BuildError → String
  | .notMemberKind k => "OperationKind." ++ k.constName ++ " is not a member reference kind"

/-- Building trees: a counter of node identities, and build errors. -/
abbrev BuildM := ExceptT BuildError (StateM Nat)

namespace Operation

/-- The next node identity. -/
def freshUid : BuildM Nat := modifyGet fun n => (n, n + 1)

/-- A span at `pos` with a text, or no span when there is no position. -/
def spanAt (pos : Option Int) (text : String) : Option Span :=
  pos.map fun p => { start := p, text := text }

/-- A node with the next identity. -/
def fresh (info : OpInfo) (p : Parts) : BuildM Operation := do
  let uid ← freshUid
  pure (make { info with uid } p)

/-- A read of a parameter. -/
def parameterReference (prog : Program) (p : ParamRef) (pos : Option Int) : BuildM Operation :=
  fresh
    { kind := .parameterReference, span := spanAt pos (prog.paramName p),
      type := (prog.param? p).map (·.type), parameter := some p } {}

/-- A read of a local variable. -/
def localReference (name : String) (pos : Option Int) (type : Option TypeId) :
    BuildM Operation :=
  fresh { kind := .localReference, span := spanAt pos name, type, name } {}

/-- A member access on an optional receiver; the kind must be a member reference kind. -/
def memberReference (receiver : Option Operation) (name : String) (pos : Option Int)
    (kind : OpKind) : BuildM Operation :=
  if kind.isMemberReference then fresh { kind, span := spanAt pos name, name } { receiver }
  else throw (.notMemberKind kind)

/-- An element access on an array. -/
def arrayElement (array : Operation) (indices : List Operation) (pos : Option Int) :
    BuildM Operation :=
  fresh { kind := .arrayElementReference, span := spanAt pos "" } { array, indices }

/-- An argument passing a value to a parameter; it shares the value's span. -/
def argument (value : Operation) (parameter : Option ParamRef) : BuildM Operation :=
  fresh { kind := .argument, span := value.info.span, parameter } { value }

/-- Wrap each plain value in an argument bound to the callee's parameter of its ordinal. -/
def bindArguments (prog : Program) (m : MethodId) (values : List Operation) :
    BuildM (List Operation) :=
  (values.zip (List.range values.length)).mapM fun (v, i) =>
    if v.kind == .argument then pure v else argument v (prog.parameterAt m i)

/-- A call of a method, with an optional receiver. -/
def invocation (prog : Program) (m : MethodId) (values : List Operation)
    (receiver : Option Operation) (pos : Option Int) : BuildM Operation := do
  let arguments ← bindArguments prog m values
  fresh { kind := .invocation, span := spanAt pos (prog.method m).name, method := some m }
    { receiver, arguments }

/-- A construction by a constructor; its type is the constructor's containing type. -/
def objectCreation (prog : Program) (ctor : MethodId) (values : List Operation)
    (pos : Option Int) : BuildM Operation := do
  let arguments ← bindArguments prog ctor values
  fresh
    { kind := .objectCreation, span := spanAt pos "", type := some (prog.method ctor).owner,
      method := some ctor } { arguments }

/-- `receiver?.access`: the access runs only when the receiver is not null. -/
def conditionalAccess (receiver whenNotNull : Operation) (pos : Option Int) : BuildM Operation :=
  fresh { kind := .conditionalAccess, span := spanAt pos "" }
    { value := some receiver, whenNotNull := some whenNotNull }

/-- The placeholder for the receiver inside a conditional access. -/
def conditionalInstance (pos : Option Int) : BuildM Operation :=
  fresh { kind := .conditionalAccessInstance, span := spanAt pos "" } {}

/-- An assignment of a value to a target. -/
def assignment (target value : Operation) (pos : Option Int) : BuildM Operation :=
  fresh { kind := .assignment, span := spanAt pos "" } { target := some target, value := some value }

/-- An expression statement; it shares the value's span. -/
def statement (value : Operation) : BuildM Operation :=
  fresh { kind := .expressionStatement, span := value.info.span } { value := some value }

/-- A throw of an optional value. -/
def throwing (value : Option Operation) (pos : Option Int) : BuildM Operation :=
  fresh { kind := .throwStatement, span := spanAt pos "" } { value }

/-- A binary operation on two operands. -/
def binary (left right : Operation) (pos : Option Int) (text : String) : BuildM Operation :=
  fresh { kind := .binary, span := spanAt pos text } { operands := [left, right] }

/-- A literal with its text. -/
def literal (text : String) (pos : Option Int) : BuildM Operation :=
  fresh { kind := .literal, span := spanAt pos text, name := text } {}

end Operation

end NullGuard
