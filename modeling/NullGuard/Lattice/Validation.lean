/-!
# The validation lattice

The validation state of one location is an element of the four-element diamond

```
          maybeValidated
          /            \
    validated     notValidated
          \            /
            unknown
```

`unknown` means "not yet seen on this path"; `maybeValidated`, validated on some paths only,
is as hazardous as `notValidated`. `Validation.join` is the least upper bound and
`Validation.le` the order: the join is commutative, associative and idempotent with `unknown`
as identity (`join_comm`, `join_assoc`, `join_self`, `unknown_join`), and `a ≤ b` exactly when
`a ⊔ b = b` (`le_iff_join`); the join is monotone in both arguments (`join_mono`).
-/

namespace NullGuard

/-- The validation state of one location. -/
inductive Validation where
  | unknown
  | validated
  | notValidated
  | maybeValidated
  deriving DecidableEq, Inhabited

namespace Validation

/-- Every state, bottom first. -/
def all : List Validation := [unknown, validated, notValidated, maybeValidated]

/-- The least upper bound of two states. -/
def join : Validation → Validation → Validation
  | unknown, s => s
  | s, unknown => s
  | validated, validated => validated
  | notValidated, notValidated => notValidated
  | _, _ => maybeValidated

/-- The order of the diamond. -/
def le : Validation → Validation → Bool
  | unknown, _ => true
  | _, maybeValidated => true
  | a, b => a == b

/-- A location in a hazardous state may hold an unvalidated parameter. -/
def isHazardous : Validation → Bool
  | notValidated | maybeValidated => true
  | _ => false

/-- The least element. -/
def bottom : Validation := unknown

/-- The greatest element. -/
def top : Validation := maybeValidated

/-- Equality as the order decides it: each state below the other. -/
def eq (a b : Validation) : Bool := a.le b && b.le a

/-- Whether a state is equal to the least element. -/
def isBottom (a : Validation) : Bool := a.eq bottom

/-- The join of a list of states, from the bottom. -/
def joinAll (xs : List Validation) : Validation := xs.foldl join bottom

/-- The constant name of a state, as in `NOT_VALIDATED`. -/
def name : Validation → String
  | unknown => "UNKNOWN"
  | validated => "VALIDATED"
  | notValidated => "NOT_VALIDATED"
  | maybeValidated => "MAYBE_VALIDATED"

/-- The written value of a state; the bottom is written `⊥`. -/
def text : Validation → String
  | unknown => "⊥"
  | validated => "validated"
  | notValidated => "not-validated"
  | maybeValidated => "maybe-validated"

/-- The state with a given constant name. -/
def ofName? (s : String) : Option Validation := all.find? (·.name == s)

/-! ### Laws -/

theorem join_comm (a b : Validation) : a.join b = b.join a := by
  cases a <;> cases b <;> rfl

theorem join_assoc (a b c : Validation) : (a.join b).join c = a.join (b.join c) := by
  cases a <;> cases b <;> cases c <;> rfl

theorem join_self (a : Validation) : a.join a = a := by
  cases a <;> rfl

@[simp] theorem unknown_join (a : Validation) : unknown.join a = a := by
  cases a <;> rfl

@[simp] theorem join_unknown (a : Validation) : a.join unknown = a := by
  cases a <;> rfl

theorem le_iff_join (a b : Validation) : a.le b = true ↔ a.join b = b := by
  cases a <;> cases b <;> decide

theorem le_refl (a : Validation) : a.le a = true := by
  cases a <;> rfl

theorem le_trans {a b c : Validation} (hab : a.le b = true) (hbc : b.le c = true) :
    a.le c = true := by
  cases a <;> cases b <;> cases c <;> simp_all [le]

theorem le_join_left (a b : Validation) : a.le (a.join b) = true := by
  cases a <;> cases b <;> rfl

theorem le_join_right (a b : Validation) : b.le (a.join b) = true := by
  cases a <;> cases b <;> rfl

theorem join_le (a b c : Validation) (ha : a.le c = true) (hb : b.le c = true) :
    (a.join b).le c = true := by
  cases a <;> cases b <;> cases c <;> simp_all [le, join]

/-- The join is monotone in both arguments. -/
theorem join_mono {a b c d : Validation} (hac : a.le c = true) (hbd : b.le d = true) :
    (a.join b).le (c.join d) = true :=
  join_le a b _ (le_trans hac (le_join_left c d)) (le_trans hbd (le_join_right c d))

end Validation

end NullGuard
