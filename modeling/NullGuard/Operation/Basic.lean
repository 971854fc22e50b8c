import NullGuard.Program.Basic
import NullGuard.Operation.Span

/-!
# Operation trees

The operations of a procedure body form trees: an `Operation` is a node carrying its
`OpInfo` (kind, span, type, name, method, parameter, and a `uid` that distinguishes it from
every other node) and its children, each tagged with the `Slot` it fills. Children are kept in
evaluation order: receiver, array, indices, target, value, arguments, operands, and the access
made when the receiver is not null.

* `Operation.walk` lists a tree in post-order, children first;
* `Operation.visits` pairs each node of that walk with whether its parent dereferences it:
  the receiver of a member reference or an invocation, and the array of an element access;
* `Operation.referencedParameter` is the parameter a value reads, looking through arguments
  and conversions.
-/

namespace NullGuard

/-- The kind of an operation. -/
inductive OpKind where
  | parameterReference
  | localReference
  | fieldReference
  | propertyReference
  | eventReference
  | methodReference
  | arrayElementReference
  | invocation
  | objectCreation
  | argument
  | conditionalAccess
  | conditionalAccessInstance
  | assignment
  | conversion
  | expressionStatement
  | returnStatement
  | throwStatement
  | binary
  | literal
  | anonymousFunction
  | other
  deriving DecidableEq, Inhabited

namespace OpKind

/-- Every kind, in declaration order. -/
def all : List OpKind :=
  [parameterReference, localReference, fieldReference, propertyReference, eventReference,
    methodReference, arrayElementReference, invocation, objectCreation, argument,
    conditionalAccess, conditionalAccessInstance, assignment, conversion, expressionStatement,
    returnStatement, throwStatement, binary, literal, anonymousFunction, other]

/-- The written name of a kind, as in `parameter-reference`. -/
def text : OpKind → String
  | parameterReference => "parameter-reference"
  | localReference => "local-reference"
  | fieldReference => "field-reference"
  | propertyReference => "property-reference"
  | eventReference => "event-reference"
  | methodReference => "method-reference"
  | arrayElementReference => "array-element-reference"
  | invocation => "invocation"
  | objectCreation => "object-creation"
  | argument => "argument"
  | conditionalAccess => "conditional-access"
  | conditionalAccessInstance => "conditional-access-instance"
  | assignment => "assignment"
  | conversion => "conversion"
  | expressionStatement => "expression-statement"
  | returnStatement => "return"
  | throwStatement => "throw"
  | binary => "binary"
  | literal => "literal"
  | anonymousFunction => "anonymous-function"
  | other => "other"

/-- The constant name of a kind, as in `PARAMETER_REFERENCE`. -/
def constName : OpKind → String
  | parameterReference => "PARAMETER_REFERENCE"
  | localReference => "LOCAL_REFERENCE"
  | fieldReference => "FIELD_REFERENCE"
  | propertyReference => "PROPERTY_REFERENCE"
  | eventReference => "EVENT_REFERENCE"
  | methodReference => "METHOD_REFERENCE"
  | arrayElementReference => "ARRAY_ELEMENT_REFERENCE"
  | invocation => "INVOCATION"
  | objectCreation => "OBJECT_CREATION"
  | argument => "ARGUMENT"
  | conditionalAccess => "CONDITIONAL_ACCESS"
  | conditionalAccessInstance => "CONDITIONAL_ACCESS_INSTANCE"
  | assignment => "ASSIGNMENT"
  | conversion => "CONVERSION"
  | expressionStatement => "EXPRESSION_STATEMENT"
  | returnStatement => "RETURN"
  | throwStatement => "THROW"
  | binary => "BINARY"
  | literal => "LITERAL"
  | anonymousFunction => "ANONYMOUS_FUNCTION"
  | other => "OTHER"

/-- The kind with a given written name. -/
def ofText? (s : String) : Option OpKind := all.find? (·.text == s)

/-- Field, property, event and method references are member references. -/
def isMemberReference : OpKind → Bool
  | fieldReference | propertyReference | eventReference | methodReference => true
  | _ => false

end OpKind

/-- The place a child fills in its parent. -/
inductive Slot where
  | receiver
  | array
  | index
  | target
  | value
  | argument
  | operand
  | whenNotNull
  deriving DecidableEq, Inhabited

/-- Whether a parent of kind `parent` dereferences the child in slot `s`: the receiver of a
member reference or of an invocation, and the array of an element access. -/
def Slot.dereferencedBy (parent : OpKind) (s : Slot) : Bool :=
  (parent.isMemberReference && s == .receiver) ||
    (parent == .arrayElementReference && s == .array) ||
    (parent == .invocation && s == .receiver)

/-- What an operation node holds besides its children. -/
structure OpInfo where
  uid : Nat := 0
  kind : OpKind
  span : Option Span := none
  type : Option TypeId := none
  name : String := ""
  method : Option MethodId := none
  parameter : Option ParamRef := none
  deriving Inhabited

/-- An operation tree: a node and its children in evaluation order, each with its slot. -/
inductive Operation where
  | node (info : OpInfo) (children : List (Slot × Operation))
  deriving Inhabited

namespace Operation

/-- The node's own data. -/
def info : Operation → OpInfo
  | node i _ => i

/-- The slotted children, in evaluation order. -/
def slots : Operation → List (Slot × Operation)
  | node _ cs => cs

/-- The children, in evaluation order. -/
def children (op : Operation) : List Operation := op.slots.map (·.2)

/-- The kind of the node. -/
def kind (op : Operation) : OpKind := op.info.kind

/-- The children filling a slot, in order. -/
def inSlot (op : Operation) (s : Slot) : List Operation :=
  op.slots.filterMap fun c => if c.1 == s then some c.2 else none

/-- The first child filling a slot. -/
def child? (op : Operation) (s : Slot) : Option Operation := (op.inSlot s).head?

/-- The argument children of a call. -/
def arguments (op : Operation) : List Operation := op.inSlot .argument

/-- The children of a node to be, slot by slot. -/
structure Parts where
  receiver : Option Operation := none
  array : Option Operation := none
  indices : List Operation := []
  target : Option Operation := none
  value : Option Operation := none
  arguments : List Operation := []
  operands : List Operation := []
  whenNotNull : Option Operation := none

/-- The children in one optional slot. -/
def single (s : Slot) : Option Operation → List (Slot × Operation)
  | some c => [(s, c)]
  | none => []

/-- Assemble a node from its parts, placing the children in evaluation order. -/
def make (info : OpInfo) (p : Parts) : Operation :=
  node info (single .receiver p.receiver ++ single .array p.array ++ p.indices.map (.index, ·) ++
    single .target p.target ++ single .value p.value ++ p.arguments.map (.argument, ·) ++
    p.operands.map (.operand, ·) ++ single .whenNotNull p.whenNotNull)

mutual

/-- The nodes of a tree in post-order: children first, then the node. -/
def walk : Operation → List Operation
  | node i cs => walkSlots cs ++ [node i cs]

/-- The post-order walks of a list of children, one after another. -/
def walkSlots : List (Slot × Operation) → List Operation
  | [] => []
  | (_, c) :: rest => walk c ++ walkSlots rest

end

mutual

/-- The post-order walk of a tree, each node paired with whether its parent dereferences it;
`deref` says so for the root. A placeholder for a conditional receiver is never dereferenced. -/
def visits : Operation → Bool → List (Operation × Bool)
  | node i cs, deref =>
    visitsSlots i.kind cs ++ [(node i cs, deref && i.kind != .conditionalAccessInstance)]

/-- The walks of the children of a node of kind `parent`. -/
def visitsSlots (parent : OpKind) : List (Slot × Operation) → List (Operation × Bool)
  | [] => []
  | (s, c) :: rest => visits c (s.dereferencedBy parent) ++ visitsSlots parent rest

end

mutual

/-- The parameter a value reads: a parameter reference's own parameter, or, through an
argument or a conversion, the parameter its value reads. -/
def referencedParameter : Operation → Option ParamRef
  | node i cs =>
    match i.kind with
    | .parameterReference => i.parameter
    | .argument | .conversion => valueParameter cs
    | _ => none

/-- The parameter read by the first child in the value slot. -/
def valueParameter : List (Slot × Operation) → Option ParamRef
  | [] => none
  | (s, c) :: rest => if s == .value then referencedParameter c else valueParameter rest

end

/-- `Operation(<kind>@<start>)`, or `Operation(<kind>)` without a span. -/
def render (op : Operation) : String :=
  match op.info.span with
  | some s => "Operation(" ++ op.kind.text ++ "@" ++ toString s.start ++ ")"
  | none => "Operation(" ++ op.kind.text ++ ")"

end Operation

end NullGuard
