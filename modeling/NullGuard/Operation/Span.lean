import NullGuard.Text.Quoted

/-!
# Source spans

A `Span` is the source extent of an operation: a start, an end (`-1` when unknown) and the
source text. Spans are ordered by `(start, stop)` alone, while equality also compares the
text, so two spans may be neither below, above nor equal to each other:

* `Span.lt` is the order on `(start, stop)`;
* `Span.le` holds when `lt` does or the spans are equal;
* `Span.gt` holds when neither `lt` nor equality does.

A missing span stands for a position after every other (`Span.position`), which is how hazard
sites without a span sort last; compared directly as a span, it has no order
(`Span.ltChecked`).
-/

namespace NullGuard

/-- The source extent of an operation. -/
structure Span where
  start : Int
  stop : Int := -1
  text : String := ""
  deriving DecidableEq, Inhabited

namespace Span

/-- The order of spans on `(start, stop)`. -/
def lt (a b : Span) : Bool := a.start < b.start || (a.start == b.start && a.stop < b.stop)

/-- Below or equal (equality including the text). -/
def le (a b : Span) : Bool := a.lt b || a == b

/-- Above: neither below nor equal. -/
def gt (a b : Span) : Bool := !a.lt b && a != b

/-- `Syntax(<start>)`, or `Syntax(<start>:<quoted text>)` when the text is not empty. -/
def render (s : Span) : String :=
  if s.text.isEmpty then "Syntax(" ++ toString s.start ++ ")"
  else "Syntax(" ++ toString s.start ++ ":" ++ Text.quote s.text ++ ")"

/-- The position of an optional span: its start, or `none` standing after every start. -/
def position : Option Span → Option Int
  | some s => some s.start
  | none => none

/-- The kind a possibly missing span is reported under when a comparison fails. -/
def kindName : Option Span → String
  | some _ => "SyntaxNode"
  | none => "NoneType"

/-- `a < b` on possibly missing spans: two spans compare by `lt`, while a missing span has no
order at all, so comparing it fails with a message naming both kinds. -/
def ltChecked : Option Span → Option Span → Except String Bool
  | some a, some b => .ok (a.lt b)
  | a, b => .error ("'<' not supported between instances of " ++ Text.quote (kindName a) ++
      " and " ++ Text.quote (kindName b))

end Span

/-- Strictly earlier positions, a missing position being after every other. -/
def positionLt : Option Int → Option Int → Bool
  | some a, some b => a < b
  | some _, none => true
  | none, _ => false

end NullGuard
