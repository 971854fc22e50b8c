import NullGuard.Number.Shortest
import NullGuard.Program.Basic
import NullGuard.Text.Quoted

/-!
# Abstract locations and points-to values

An abstract `Location` is one storage cell the analysis tracks. The cell holding a
parameter's entry value is `Location.param`; any other cell is a `Location.cell` named by a
`Key` (the null key, a text, an integer, a truth value, a binary64 or a tuple of keys) and
possibly owned by a parameter.

Keys are compared by the value they denote, not by how they are written: `true`, `1` and
`1.0` name one cell, as do `false`, `0` and `-0.0`, and tuples compare item by item.
`Key.normal` writes each key in one canonical spelling (an integral number as an integer), so
two locations are the same cell exactly when their `Location.normal` forms are equal. A
collection of locations keeps the spelling under which a cell first entered it.

A `PointsTo` value says what an operation may refer to: exactly one of a set of locations,
anything at all, or no location (a value that is not a reference).
-/

namespace NullGuard

/-- The name of a storage cell: the null key, a text, an integer, a truth value, a binary64,
or a tuple of keys. -/
inductive Key where
  | null
  | text (s : String)
  | int (n : Int)
  | bool (b : Bool)
  | real (x : Binary64)
  | tuple (items : List Key)
  deriving Inhabited

mutual

/-- Decide whether two keys are written alike. -/
def Key.decEq : (a b : Key) → Decidable (a = b)
  | .null, .null => isTrue rfl
  | .text s, .text t =>
    if h : s = t then isTrue (h ▸ rfl) else isFalse fun e => by injection e; contradiction
  | .int m, .int n =>
    if h : m = n then isTrue (h ▸ rfl) else isFalse fun e => by injection e; contradiction
  | .bool b, .bool c =>
    if h : b = c then isTrue (h ▸ rfl) else isFalse fun e => by injection e; contradiction
  | .real x, .real y =>
    if h : x = y then isTrue (h ▸ rfl) else isFalse fun e => by injection e; contradiction
  | .tuple xs, .tuple ys =>
    match Key.decEqList xs ys with
    | isTrue h => isTrue (h ▸ rfl)
    | isFalse h => isFalse fun e => by injection e; contradiction
  | .null, .text _ | .null, .int _ | .null, .bool _ | .null, .real _ | .null, .tuple _
  | .text _, .null | .text _, .int _ | .text _, .bool _ | .text _, .real _ | .text _, .tuple _
  | .int _, .null | .int _, .text _ | .int _, .bool _ | .int _, .real _ | .int _, .tuple _
  | .bool _, .null | .bool _, .text _ | .bool _, .int _ | .bool _, .real _ | .bool _, .tuple _
  | .real _, .null | .real _, .text _ | .real _, .int _ | .real _, .bool _ | .real _, .tuple _
  | .tuple _, .null | .tuple _, .text _ | .tuple _, .int _ | .tuple _, .bool _
  | .tuple _, .real _ => isFalse fun e => by cases e

/-- Decide whether two lists of keys are written alike. -/
def Key.decEqList : (xs ys : List Key) → Decidable (xs = ys)
  | [], [] => isTrue rfl
  | [], _ :: _ | _ :: _, [] => isFalse fun e => by cases e
  | x :: xs, y :: ys =>
    match Key.decEq x y, Key.decEqList xs ys with
    | isTrue h₁, isTrue h₂ => isTrue (h₁ ▸ h₂ ▸ rfl)
    | isFalse h, _ => isFalse fun e => by injection e; contradiction
    | _, isFalse h => isFalse fun e => by injection e; contradiction

end

instance : DecidableEq Key := Key.decEq

mutual

/-- The literal text of a key: `None`, `'a'`, `5`, `True`, `1.5`, `('a', 1)`, and `('a',)`
for a one-element tuple. -/
def Key.render : Key → String
  | .null => "None"
  | .text s => Text.quote s
  | .int n => toString n
  | .bool b => if b then "True" else "False"
  | .real x => x.toRepr
  | .tuple [k] => "(" ++ k.render ++ ",)"
  | .tuple ks => "(" ++ ", ".intercalate (Key.renderAll ks) ++ ")"

/-- The literal texts of the items of a tuple. -/
def Key.renderAll : List Key → List String
  | [] => []
  | k :: ks => k.render :: Key.renderAll ks

end

mutual

/-- The canonical spelling of the value a key denotes: truth values and integral binary64
values become integers, and tuples are normalised item by item. -/
def Key.normal : Key → Key
  | .null => .null
  | .text s => .text s
  | .int n => .int n
  | .bool b => .int (if b then 1 else 0)
  | .real x =>
    match x.toInt? with
    | some n => .int n
    | none => .real x
  | .tuple ks => .tuple (Key.normalAll ks)

/-- The canonical spellings of the items of a tuple. -/
def Key.normalAll : List Key → List Key
  | [] => []
  | k :: ks => k.normal :: Key.normalAll ks

end

/-- An abstract storage cell. -/
inductive Location where
  /-- The cell holding a parameter's value on entry. -/
  | param (p : ParamRef)
  /-- A cell named by a key, possibly owned by a parameter. -/
  | cell (key : Key) (owner : Option ParamRef)
  deriving DecidableEq, Inhabited

namespace Location

/-- The location with its key in canonical spelling; two locations are the same cell exactly
when these are equal. -/
def normal : Location → Location
  | param p => param p
  | cell k owner => cell k.normal owner

/-- The locations of a list, each cell once, under the spelling it first appears with. -/
def dedup (ls : List Location) : List Location :=
  ls.foldl (fun acc l => if acc.any (·.normal == l.normal) then acc else acc ++ [l]) []

/-- The parameter a location belongs to, if any. -/
def parameter? : Location → Option ParamRef
  | param p => some p
  | cell _ owner => owner

/-- `Loc(<parameter name>)` for a location with a parameter, `Loc(<key>)` otherwise. -/
def render (prog : Program) (l : Location) : String :=
  match l, l.parameter? with
  | _, some p => "Loc(" ++ prog.paramName p ++ ")"
  | cell k _, none => "Loc(" ++ k.render ++ ")"
  | param _, none => "Loc()"

end Location

/-- How much a points-to value says about what it refers to. -/
inductive PointsToKind where
  /-- Exactly one of the value's locations. -/
  | known
  /-- Anything at all. -/
  | unknown
  /-- No location: the value is not a reference. -/
  | noLocation
  deriving DecidableEq, Inhabited

/-- What an operation's value may refer to: a kind, and the distinct cells given with it.
Only a `known` value's locations are read by the analysis; those given with another kind are
kept as given. -/
structure PointsTo where
  kind : PointsToKind
  locations : List Location := []
  deriving DecidableEq, Inhabited

namespace PointsTo

/-- A value of a kind over the distinct cells of a list of locations, each under the spelling
it first appears with. -/
def ofList (kind : PointsToKind) (ls : List Location) : PointsTo := ⟨kind, Location.dedup ls⟩

/-- A value that refers to exactly one of these locations. -/
def known (ls : List Location) : PointsTo := ofList .known ls

/-- A value that may refer to anything. -/
def unknown : PointsTo := ⟨.unknown, []⟩

/-- A value that is not a reference. -/
def noLocation : PointsTo := ⟨.noLocation, []⟩

/-- The written name of a points-to kind. -/
def kindText (v : PointsTo) : String :=
  match v.kind with
  | .known => "known"
  | .unknown => "unknown"
  | .noLocation => "no-location"

end PointsTo

end NullGuard
