import NullGuard.Config.Setting
import NullGuard.Failure

/-!
# Analysis options

`Options` bundles the knobs of one analysis run. It is read from a configuration mapping by
`Options.ofMapping`, which takes the keys in order, rejects the first unknown or ill-typed
one, turns an integer time budget into a binary64, and then checks the ranges: the
iteration budget first, then the time budget, then the call-chain limit.

`Options.ofKeywords` builds the options from values used as they are, without any
conversion; keywords are checked in order before any value, and only the range checks run,
comparing the raw values with zero.
-/

namespace NullGuard

/-- The options of one analysis run. -/
structure Options where
  /-- Block-visit budget per procedure; past it the procedure's result is incomplete. -/
  maxIterations : Int := 10000
  /-- Wall-clock budget per procedure, when set. -/
  maxSeconds : Option Binary64 := none
  /-- Whether summaries of private callees and nested functions are consulted. -/
  interprocedural : Bool := true
  /-- The deepest chain of on-demand callee analyses. -/
  maxCallChain : Int := 8
  /-- Whether a guard by an unhandled throw validates a parameter at the exit. -/
  validatedViaUnhandledThrow : Bool := true
  /-- The attribute that marks a parameter as validated on entry. -/
  validatedNotNullAttribute : String := "ValidatedNotNullAttribute"
  /-- The name prefix of the static string null-check predicates. -/
  nullCheckPrefix : String := "IsNull"
  /-- The name of the exception serialization hook. -/
  serializationMethodName : String := "GetObjectData"
  deriving DecidableEq, Inhabited

/-- Why options could not be built. -/
inductive OptionError where
  /-- A mapping key that names no option. -/
  | unknown (key : String)
  /-- A mapping value of the wrong kind for its option. -/
  | invalid (key : String) (value : Setting)
  /-- The iteration budget is not positive. -/
  | iterationsNotPositive
  /-- The time budget is set and not positive. -/
  | secondsNotPositive
  /-- The call-chain limit is negative. -/
  | callChainNegative
  /-- A keyword that names no option. -/
  | unexpectedKeyword (key : String)
  /-- A keyword that names the receiver, which the constructor is always given by position. -/
  | repeatedArgument (key : String)
  /-- A raw value of kind `kind` compared with zero by `op`, which it does not support. -/
  | unordered (op : String) (kind : String)
  /-- An integer time budget too large for a binary64. -/
  | tooLarge

namespace OptionError

/-- The failure code of a configuration error; `none` for the errors of raw values. -/
def code? : OptionError → Option ErrorCode
  | unknown _ => some .unknownOption
  | invalid _ _ | iterationsNotPositive | secondsNotPositive | callChainNegative =>
    some .invalidOptionValue
  | _ => none

/-- The full text of an option error. -/
def message : OptionError → String
  | unknown key =>
    Failure.render ⟨.unknownOption, "unknown analysis option '" ++ key ++ "'", some (Text.quote key)⟩
  | invalid key value =>
    Failure.render ⟨.invalidOptionValue,
      "invalid value " ++ value.render ++ " for option '" ++ key ++ "'", some (Text.quote key)⟩
  | iterationsNotPositive =>
    Failure.render ⟨.invalidOptionValue, "max_iterations must be positive",
      some (Text.quote "max_iterations")⟩
  | secondsNotPositive =>
    Failure.render ⟨.invalidOptionValue, "max_seconds must be positive or None",
      some (Text.quote "max_seconds")⟩
  | callChainNegative =>
    Failure.render ⟨.invalidOptionValue, "max_call_chain must not be negative",
      some (Text.quote "max_call_chain")⟩
  | unexpectedKeyword key =>
    "AnalysisOptions.__init__() got an unexpected keyword argument '" ++ key ++ "'"
  | repeatedArgument key =>
    "AnalysisOptions.__init__() got multiple values for argument '" ++ key ++ "'"
  | unordered op kind => Text.quote op ++ " not supported between instances of " ++
      Text.quote kind ++ " and 'int'"
  | tooLarge => "int too large to convert to float"

end OptionError

namespace Options

/-- The name under which the constructor receives the options record it fills. -/
def receiver : String := "self"

/-- The option names, in declaration order. -/
def names : List String :=
  ["max_iterations", "max_seconds", "interprocedural", "max_call_chain",
    "validated_via_unhandled_throw", "validated_not_null_attribute", "null_check_prefix",
    "serialization_method_name"]

/-- The options as named settings, in declaration order. -/
def settings (o : Options) : List (String × Setting) :=
  [("max_iterations", .int o.maxIterations),
    ("max_seconds", match o.maxSeconds with | some x => .real x | none => .none),
    ("interprocedural", .bool o.interprocedural),
    ("max_call_chain", .int o.maxCallChain),
    ("validated_via_unhandled_throw", .bool o.validatedViaUnhandledThrow),
    ("validated_not_null_attribute", .text o.validatedNotNullAttribute),
    ("null_check_prefix", .text o.nullCheckPrefix),
    ("serialization_method_name", .text o.serializationMethodName)]

/-- The range checks, in order: iteration budget, time budget, call-chain limit. -/
def check (o : Options) : Except OptionError Options :=
  if o.maxIterations ≤ 0 then .error .iterationsNotPositive
  else if (o.maxSeconds.map Binary64.nonPositive).getD false then .error .secondsNotPositive
  else if o.maxCallChain < 0 then .error .callChainNegative
  else .ok o

/-- A text option accepts a non-empty text. -/
def textValue (key : String) : Setting → Except OptionError String
  | .text s => if s.isEmpty then .error (.invalid key (.text s)) else .ok s
  | v => .error (.invalid key v)

/-- A truth-value option accepts a truth value. -/
def boolValue (key : String) : Setting → Except OptionError Bool
  | .bool b => .ok b
  | v => .error (.invalid key v)

/-- An integer option accepts an integer, not a truth value. -/
def intValue (key : String) : Setting → Except OptionError Int
  | .int n => .ok n
  | v => .error (.invalid key v)

/-- The time budget accepts nothing, an integer (made a binary64) or a binary64. -/
def secondsValue : Setting → Except OptionError (Option Binary64)
  | .none => .ok none
  | .real x => .ok (some x)
  | .int n => match Binary64.ofInt? n with
    | some x => .ok (some x)
    | none => .error .tooLarge
  | v => .error (.invalid "max_seconds" v)

/-- Set one option from a mapping entry, converting its value. -/
def assign (o : Options) : String × Setting → Except OptionError Options
  | ("max_iterations", v) => return { o with maxIterations := ← intValue "max_iterations" v }
  | ("max_seconds", v) => return { o with maxSeconds := ← secondsValue v }
  | ("interprocedural", v) => return { o with interprocedural := ← boolValue "interprocedural" v }
  | ("max_call_chain", v) => return { o with maxCallChain := ← intValue "max_call_chain" v }
  | ("validated_via_unhandled_throw", v) =>
    return { o with validatedViaUnhandledThrow := ← boolValue "validated_via_unhandled_throw" v }
  | ("validated_not_null_attribute", v) =>
    return { o with validatedNotNullAttribute := ← textValue "validated_not_null_attribute" v }
  | ("null_check_prefix", v) => return { o with nullCheckPrefix := ← textValue "null_check_prefix" v }
  | ("serialization_method_name", v) =>
    return { o with serializationMethodName := ← textValue "serialization_method_name" v }
  | (key, _) => .error (.unknown key)

/-- Options from a configuration mapping: entries in order, then the range checks. -/
def ofMapping (entries : List (String × Setting)) : Except OptionError Options := do
  let o ← entries.foldlM assign {}
  check o

/-- Whether the options are the defaults. -/
def isDefault (o : Options) : Bool := o == {}

/-- Compare a raw value with zero for a range check written with `op`. -/
def rawSign (op : String) (v : Setting) : Except OptionError (Option Ordering) :=
  match v.compareZero with
  | .ok s => .ok s
  | .error kind => .error (.unordered op kind)

/-- The range checks on raw values, in order. -/
def checkRaw (values : List (String × Setting)) : Except OptionError Unit := do
  let get (k : String) : Setting := (values.lookup k).getD .none
  if (← rawSign "<=" (get "max_iterations")) matches some .lt | some .eq then
    throw .iterationsNotPositive
  match get "max_seconds" with
  | .none => pure ()
  | v => if (← rawSign "<=" v) matches some .lt | some .eq then throw .secondsNotPositive
  if (← rawSign "<" (get "max_call_chain")) matches some .lt then throw .callChainNegative

/-- Options from keyword values used as they are: every keyword must name an option, the
first that does not (or that names the receiver) being refused, the others keep their
defaults, and only the range checks run. The result lists every option's value in
declaration order. -/
def ofKeywords (keywords : List (String × Setting)) :
    Except OptionError (List (String × Setting)) := do
  if let some (k, _) := keywords.find? (fun kv => kv.1 == receiver || !names.contains kv.1) then
    throw (if k == receiver then .repeatedArgument k else .unexpectedKeyword k)
  let values := (({} : Options).settings).map fun (k, d) => (k, (keywords.lookup k).getD d)
  checkRaw values
  pure values

/-- Whether raw option values equal the defaults. -/
def rawIsDefault (values : List (String × Setting)) : Bool :=
  (({} : Options).settings).all fun (k, d) =>
    match values.lookup k with
    | some v => v.equiv d
    | none => true

end Options

end NullGuard
