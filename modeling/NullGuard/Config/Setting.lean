import NullGuard.Number.Shortest
import NullGuard.Text.Quoted

/-!
# Settings

A `Setting` is a value of a plain configuration mapping, as a parsed configuration file
gives it: nothing, a truth value, an integer, a binary64 number, a text, a list or a table.

* `Setting.render` is the literal text of a value (`None`, `True`, `1.5`, `'x'`, `[1]`,
  `{'a': 1}`), used in error messages;
* `Setting.equiv` is equality of settings, under which truth values count as the
  integers 0 and 1 and numbers compare by value across kinds;
* `Setting.compareZero` orders a number against zero, and names the kind of a value that
  has no order.
-/

namespace NullGuard

/-- A configuration value. -/
inductive Setting where
  | none
  | bool (b : Bool)
  | int (n : Int)
  | real (x : Binary64)
  | text (s : String)
  | list (items : List Setting)
  | table (entries : List (String × Setting))
  deriving Inhabited

namespace Setting

mutual

/-- The literal text of a setting. -/
def render : Setting → String
  | none => "None"
  | bool b => if b then "True" else "False"
  | int n => toString n
  | real x => x.toRepr
  | text s => Text.quote s
  | list items => "[" ++ ", ".intercalate (renderItems items) ++ "]"
  | table entries => "\x7b" ++ ", ".intercalate (renderEntries entries) ++ "\x7d"

/-- The literal texts of the items of a list. -/
def renderItems : List Setting → List String
  | [] => []
  | s :: rest => render s :: renderItems rest

/-- The literal texts `'key': value` of the entries of a table. -/
def renderEntries : List (String × Setting) → List String
  | [] => []
  | (k, v) :: rest => (Text.quote k ++ ": " ++ render v) :: renderEntries rest

end

/-- The name of the kind of a setting, as error messages name it. -/
def kindName : Setting → String
  | none => "NoneType"
  | bool _ => "bool"
  | int _ => "int"
  | real _ => "float"
  | text _ => "str"
  | list _ => "list"
  | table _ => "dict"

/-- A number setting as a binary64 or an integer; `none` for the other kinds. -/
def asNumber : Setting → Option (Binary64 ⊕ Int)
  | bool b => some (.inr (if b then 1 else 0))
  | int n => some (.inr n)
  | real x => some (.inl x)
  | _ => Option.none

/-- Equality of number settings by value. -/
def numberEq : Binary64 ⊕ Int → Binary64 ⊕ Int → Bool
  | .inr a, .inr b => a == b
  | .inl x, .inr b => x.eqInt b
  | .inr a, .inl y => y.eqInt a
  | .inl x, .inl y => x.numEq y

mutual

/-- Equality of settings: numbers by value across kinds, texts, lists item by item, and
tables key by key regardless of order. -/
def equiv : Setting → Setting → Bool
  | none, none => true
  | text a, text b => a == b
  | list as, list bs => itemsEquiv as bs
  | table as, table bs => as.length == bs.length && entriesWithin as bs
  | a, b =>
    match a.asNumber, b.asNumber with
    | some x, some y => numberEq x y
    | _, _ => false

/-- Item-by-item equality of two lists of settings. -/
def itemsEquiv : List Setting → List Setting → Bool
  | [], [] => true
  | a :: as, b :: bs => equiv a b && itemsEquiv as bs
  | _, _ => false

/-- Every entry of the first table has an equal entry under its key in the second. -/
def entriesWithin : List (String × Setting) → List (String × Setting) → Bool
  | [], _ => true
  | (k, v) :: rest, bs =>
    (match bs.lookup k with
      | some w => equiv v w
      | Option.none => false) && entriesWithin rest bs

end

/-- How a number setting compares with zero: `some` of `Ordering.lt`, `eq` or `gt`, or
`none` for the NaN (which is neither). -/
def numberSign : Binary64 ⊕ Int → Option Ordering
  | .inr n => some (compare n 0)
  | .inl x =>
    if x.negative then some .lt
    else if x.nonPositive then some .eq
    else match x with
      | .nan => Option.none
      | _ => some .gt

/-- Compare a setting with zero: the sign of a number (`none` for the NaN), or the kind name
of a setting that is not a number. -/
def compareZero (s : Setting) : Except String (Option Ordering) :=
  match s.asNumber with
  | some x => .ok (numberSign x)
  | Option.none => .error s.kindName

end Setting

end NullGuard
