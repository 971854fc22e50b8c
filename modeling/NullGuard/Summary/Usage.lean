import NullGuard.Operation.Span
import NullGuard.Program.Basic

/-!
# Hazard logs and usage maps

While a procedure is solved its hazards collect in a `HazardLog`: for each parameter, the
span of its earliest hazardous use, a missing span counting as later than any other.
`HazardLog.record` keeps the earlier of two sites and, on a tie, the first recorded; after it
the parameter has an entry and every other entry is as it was.

When the procedure is done the log is frozen into a `UsageMap`, the procedure's summary: the
same entries ordered by position, then by the parameter's ordinal and name, entries that
still tie keeping their order in the log.
-/

namespace NullGuard

/-- Parameter → earliest hazardous use, in first-record order. -/
structure HazardLog where
  entries : List (ParamRef × Option Span) := []
  deriving Inhabited

namespace HazardLog

/-- Whether a parameter has a recorded hazard. -/
def contains (log : HazardLog) (p : ParamRef) : Bool := (log.entries.lookup p).isSome

/-- The number of parameters with a recorded hazard. -/
def size (log : HazardLog) : Nat := log.entries.length

/-- Move the first entry of a parameter to a new site, keeping its place. -/
def relocate : List (ParamRef × Option Span) → ParamRef → Option Span →
    List (ParamRef × Option Span)
  | [], _, _ => []
  | (q, s) :: rest, p, site => if q = p then (p, site) :: rest else (q, s) :: relocate rest p site

theorem lookup_relocate_self (es : List (ParamRef × Option Span)) (p : ParamRef)
    (site : Option Span) (h : (es.lookup p).isSome) : (relocate es p site).lookup p = some site := by
  induction es with
  | nil => simp at h
  | cons e rest ih =>
    obtain ⟨q, s⟩ := e
    by_cases hq : q = p
    · simp [relocate, hq]
    · have hne : (p == q) = false := by simpa using Ne.symm hq
      simp only [List.lookup_cons, hne] at h
      simp [relocate, hq, List.lookup_cons, hne, ih h]

theorem lookup_relocate_ne (es : List (ParamRef × Option Span)) {p r : ParamRef}
    (site : Option Span) (h : r ≠ p) : (relocate es p site).lookup r = es.lookup r := by
  induction es with
  | nil => rfl
  | cons e rest ih =>
    obtain ⟨q, s⟩ := e
    by_cases hq : q = p
    · subst hq
      have hne : (r == q) = false := by simpa using h
      simp [relocate, List.lookup_cons, hne]
    · simp only [relocate, hq, if_false, List.lookup_cons]
      split <;> simp_all

/-- Record a hazard at a site; `true` when the entry was added or moved earlier. -/
def record (log : HazardLog) (p : ParamRef) (site : Option Span) : Bool × HazardLog :=
  match log.entries.lookup p with
  | some old =>
    if positionLt (Span.position site) (Span.position old) then
      (true, { entries := relocate log.entries p site })
    else (false, log)
  | none => (true, { entries := log.entries ++ [(p, site)] })

/-- After a record the parameter has an entry. -/
@[simp] theorem contains_record_self (log : HazardLog) (p : ParamRef) (site : Option Span) :
    (log.record p site).2.contains p = true := by
  unfold record contains
  split
  · rename_i old hold
    split
    · have hs : (log.entries.lookup p).isSome := by rw [hold]; rfl
      show ((relocate log.entries p site).lookup p).isSome = true
      rw [lookup_relocate_self _ _ _ hs]; rfl
    · simp [hold]
  · simp [List.lookup_append, *]

/-- A record leaves every other parameter's entry as it was. -/
theorem lookup_record_ne (log : HazardLog) {p r : ParamRef} (site : Option Span) (h : r ≠ p) :
    (log.record p site).2.entries.lookup r = log.entries.lookup r := by
  unfold record
  split
  · split
    · exact lookup_relocate_ne _ _ h
    · rfl
  · have hne : (r == p) = false := by simpa using h
    simp [List.lookup_append, List.lookup_cons, hne]

end HazardLog

/-- A procedure's summary: parameter → earliest hazardous use, in source order. -/
structure UsageMap where
  entries : List (ParamRef × Option Span) := []
  deriving Inhabited

namespace UsageMap

/-- The empty summary. -/
def empty : UsageMap := {}

/-- Whether an entry sorts before another: by position, then ordinal, then name. -/
def before (prog : Program) (a b : ParamRef × Option Span) : Bool :=
  let pa := Span.position a.2
  let pb := Span.position b.2
  positionLt pa pb ||
    (pa == pb && (a.1.ordinal < b.1.ordinal ||
      (a.1.ordinal == b.1.ordinal && decide (prog.paramName a.1 < prog.paramName b.1))))

/-- The summary of entries: one per parameter, the last given winning, sorted stably. -/
def ofList (prog : Program) (es : List (ParamRef × Option Span)) : UsageMap :=
  let distinct := es.foldl (fun acc e =>
    if acc.any (·.1 == e.1) then acc.map fun x => if x.1 == e.1 then e else x else acc ++ [e]) []
  { entries := distinct.mergeSort fun a b => !before prog b a }

/-- Freeze a hazard log into a summary. -/
def ofLog (prog : Program) (log : HazardLog) : UsageMap := ofList prog log.entries

/-- Whether a parameter is in the summary. -/
def contains (u : UsageMap) (p : ParamRef) : Bool := (u.entries.lookup p).isSome

/-- Whether the summary is empty. -/
def isEmpty (u : UsageMap) : Bool := u.entries.isEmpty

/-- The parameters of the summary, in order. -/
def parameters (u : UsageMap) : List ParamRef := u.entries.map (·.1)

/-- `HazardousUsageMap({<name>: <span>, ...})`. -/
def render (prog : Program) (u : UsageMap) : String :=
  "HazardousUsageMap(\x7b" ++ ", ".intercalate (u.entries.map fun e =>
    prog.paramName e.1 ++ ": " ++ (match e.2 with | some s => s.render | none => "None")) ++ "\x7d)"

end UsageMap

end NullGuard
