/-!
# Failures

The errors this library reports to its caller carry a stable code, a message, and the
rendered subject they are about. `Failure.render` gives their one-line text,
`PF-1002: max_iterations must be positive ['max_iterations']`: the code, the message and,
when there is a subject, the subject in brackets.
-/

namespace NullGuard

/-- The stable identifiers of failures: configuration (1xxx), control-flow graphs (2xxx) and
analysis budgets (3xxx). -/
inductive ErrorCode where
  | unknownOption
  | invalidOptionValue
  | missingEntryOrExit
  | foreignBlock
  | danglingEdge
  | iterationBudget
  | timeBudget
  deriving DecidableEq, Inhabited

namespace ErrorCode

/-- The number of a code. -/
def number : ErrorCode → Nat
  | unknownOption => 1001
  | invalidOptionValue => 1002
  | missingEntryOrExit => 2001
  | foreignBlock => 2002
  | danglingEdge => 2003
  | iterationBudget => 3001
  | timeBudget => 3002

/-- The label of a code, `PF-` and the number in four digits. -/
def label (c : ErrorCode) : String :=
  let digits := toString c.number
  "PF-" ++ String.ofList (List.replicate (4 - digits.length) '0') ++ digits

end ErrorCode

/-- A failure: its code, its message and the rendered subject it is about, if any. -/
structure Failure where
  code : ErrorCode
  message : String
  subject : Option String := none
  deriving DecidableEq, Inhabited

/-- The one-line text of a failure. -/
def Failure.render (f : Failure) : String :=
  match f.subject with
  | none => f.code.label ++ ": " ++ f.message
  | some s => f.code.label ++ ": " ++ f.message ++ " [" ++ s ++ "]"

end NullGuard
