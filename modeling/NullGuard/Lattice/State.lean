import NullGuard.Lattice.Validation
import NullGuard.Location.Basic

/-!
# Analysis states

An `AnalysisState` maps cells to validation states at one block boundary. It keeps its
entries in the order they were first written, each under the location it was first written
with (locations naming one cell share one entry, see `Location.normal`), together with the
predicate of the locations it tracks: writes to other locations are dropped, and reads of
absent locations give `unknown`.

* `AnalysisState.merge` is the pointwise join; it keeps the first state's predicate and does
  not filter the second state's entries through it;
* `AnalysisState.equiv` compares the entries that are not `unknown`, in any order, since an
  `unknown` entry and an absent one cannot be told apart;
* `AnalysisState.le` holds when every entry of the first is below the second's value there.

The lemmas beside `set` say what a write does to `get`: a tracked location reads back the
written value, other cells are untouched, and an untracked write changes nothing.
-/

namespace NullGuard

/-- Location → validation state, in first-write order, with the tracked-location predicate. -/
structure AnalysisState where
  entries : List (Location × Validation) := []
  tracks : Location → Bool := fun _ => true

namespace AnalysisState

/-- The empty state tracking the locations `tracks` accepts. -/
def empty (tracks : Location → Bool) : AnalysisState := { tracks }

/-- The state stored for the cell a location names, if any. -/
def valueOf? : List (Location × Validation) → Location → Option Validation
  | [], _ => none
  | (k, w) :: rest, l => if k.normal = l.normal then some w else valueOf? rest l

/-- The state of a location; `unknown` when absent. -/
def get (s : AnalysisState) (l : Location) : Validation := (valueOf? s.entries l).getD .unknown

/-- Whether a location has an entry (possibly `unknown`). -/
def contains (s : AnalysisState) (l : Location) : Bool := (valueOf? s.entries l).isSome

/-- The number of entries. -/
def size (s : AnalysisState) : Nat := s.entries.length

/-- Write the state of a cell: in place of its first entry, under the spelling already
there, or at the end. -/
def upsert : List (Location × Validation) → Location → Validation → List (Location × Validation)
  | [], l, v => [(l, v)]
  | (k, w) :: rest, l, v =>
    if k.normal = l.normal then (k, v) :: rest else (k, w) :: upsert rest l v

theorem valueOf?_upsert_self (es : List (Location × Validation)) (l : Location)
    (v : Validation) : valueOf? (upsert es l v) l = some v := by
  induction es with
  | nil => simp [upsert, valueOf?]
  | cons e rest ih =>
    obtain ⟨k, w⟩ := e
    by_cases h : k.normal = l.normal
    · simp [upsert, valueOf?, h]
    · simp [upsert, valueOf?, h, ih]

theorem valueOf?_upsert_ne (es : List (Location × Validation)) {l m : Location}
    (v : Validation) (h : m.normal ≠ l.normal) : valueOf? (upsert es l v) m = valueOf? es m := by
  induction es with
  | nil => simp [upsert, valueOf?, Ne.symm h]
  | cons e rest ih =>
    obtain ⟨k, w⟩ := e
    by_cases hk : k.normal = l.normal
    · simp [upsert, valueOf?, hk, Ne.symm h]
    · simp [upsert, valueOf?, hk, ih]

/-- Write a location's state; dropped when the location is not tracked. -/
def set (s : AnalysisState) (l : Location) (v : Validation) : AnalysisState :=
  if s.tracks l then { s with entries := upsert s.entries l v } else s

theorem get_set_self (s : AnalysisState) (l : Location) (v : Validation) (h : s.tracks l = true) :
    (s.set l v).get l = v := by
  simp [set, get, h, valueOf?_upsert_self]

theorem get_set_of_not_tracks (s : AnalysisState) (l m : Location) (v : Validation)
    (h : s.tracks l = false) : (s.set l v).get m = s.get m := by
  simp [set, h]

theorem get_set_ne (s : AnalysisState) {l m : Location} (v : Validation)
    (h : m.normal ≠ l.normal) : (s.set l v).get m = s.get m := by
  unfold set
  split
  · simp [get, valueOf?_upsert_ne _ _ h]
  · rfl

@[simp] theorem tracks_set (s : AnalysisState) (l : Location) (v : Validation) :
    (s.set l v).tracks = s.tracks := by
  unfold set; split <;> rfl

/-- Write the same state to several locations, in order. -/
def setAll (s : AnalysisState) (ls : List Location) (v : Validation) : AnalysisState :=
  ls.foldl (fun acc l => acc.set l v) s

/-- Remove the entry of the cell a location names. -/
def discard (s : AnalysisState) (l : Location) : AnalysisState :=
  { s with entries := s.entries.filter (·.1.normal != l.normal) }

/-- A state built from entries in order, each write going through the predicate. -/
def ofList (tracks : Location → Bool) (es : List (Location × Validation)) : AnalysisState :=
  es.foldl (fun acc e => acc.set e.1 e.2) (empty tracks)

/-- The locations in a hazardous state, in entry order. -/
def hazardous (s : AnalysisState) : List Location :=
  (s.entries.filter (·.2.isHazardous)).map (·.1)

/-- Whether a location is in a hazardous state. -/
def isHazardous (s : AnalysisState) (l : Location) : Bool := (s.get l).isHazardous

/-- The pointwise join: the first state's entries and predicate, each of the second's entries
joined in, unfiltered. -/
def merge (a b : AnalysisState) : AnalysisState :=
  { a with entries := b.entries.foldl (fun es e => upsert es e.1 ((valueOf? es e.1).getD .unknown |>.join e.2)) a.entries }

/-- The entries that are not `unknown`. -/
def significant (s : AnalysisState) : List (Location × Validation) :=
  s.entries.filter (·.2 != .unknown)

/-- Equality ignoring `unknown` entries and order. -/
def equiv (a b : AnalysisState) : Bool :=
  a.significant.length == b.significant.length && a.significant.all fun e => b.get e.1 == e.2

/-- The order of the map lattice: every entry of `a` is below `b`'s value at its location. -/
def le (a b : AnalysisState) : Bool := a.entries.all fun e => e.2.le (b.get e.1)

/-- The join of a list of states, starting from the empty state tracking `tracks`. -/
def joinAll (tracks : Location → Bool) (ss : List AnalysisState) : AnalysisState :=
  ss.foldl merge (empty tracks)

/-- `AnalysisState({Loc(..): NAME, ...})`, entries in order. -/
def render (prog : Program) (s : AnalysisState) : String :=
  "AnalysisState(\x7b" ++ ", ".intercalate (s.entries.map fun e => e.1.render prog ++ ": " ++ e.2.name) ++ "\x7d)"

end AnalysisState

end NullGuard
