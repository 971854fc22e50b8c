/-!
# Binary64 numbers

A double-precision number kept exactly: a finite value is `± mant * 2 ^ exp` in the
canonical form of the binary64 format (`mant < 2 ^ 53`, and `2 ^ 52 ≤ mant` unless the
exponent is the least one, `-1074`), besides the two infinities and the NaN.

`roundRatio` rounds an exact ratio of naturals to the nearest binary64, ties to even, and is
the single rounding step: reading decimal text (`ofScientific`) and converting an integer
(`ofInt?`) both go through it.
-/

namespace NullGuard

/-- A binary64 value: a canonical finite value, an infinity, or the NaN. -/
inductive Binary64 where
  | finite (neg : Bool) (mant : Nat) (exp : Int)
  | infinite (neg : Bool)
  | nan
  deriving DecidableEq, Inhabited

namespace Binary64

/-- The least binary exponent: the exponent of the subnormal numbers. -/
def minExp : Int := -1074

/-- The greatest binary exponent of a finite value. -/
def maxExp : Int := 971

/-- `num * 2 ^ k` for an integer `k`, as a ratio of naturals. -/
def scaleRatio (num den : Nat) (k : Int) : Nat × Nat :=
  if 0 ≤ k then (num * Nat.pow 2 k.toNat, den) else (num, den * Nat.pow 2 (-k).toNat)

/-- The quotient of a ratio rounded to the nearest natural, ties to the even one. -/
def roundHalfEven (num den : Nat) : Nat :=
  let q := num / den
  let r := num % den
  if 2 * r > den || (2 * r == den && q % 2 == 1) then q + 1 else q

/-- The exponent `⌊log₂ (num / den)⌋` of a positive ratio. -/
def log2Ratio (num den : Nat) : Int :=
  let guess : Int := (Nat.log2 num : Int) - (Nat.log2 den : Int)
  let (a, b) := scaleRatio den 1 guess
  -- `num / den ≥ 2 ^ guess` exactly when `num * b ≥ a`
  if num * b ≥ a then guess else guess - 1

/-- The binary64 nearest to `num / den` (with `0 < den`), ties to even; `neg` gives the sign. -/
def roundRatio (neg : Bool) (num den : Nat) : Binary64 :=
  if num = 0 then .finite neg 0 minExp
  else
    let e := max (log2Ratio num den - 52) minExp
    let (n, d) := scaleRatio num den (-e)
    let m := roundHalfEven n d
    let (m, e) := if m = Nat.pow 2 53 then (Nat.pow 2 52, e + 1) else (m, e)
    if e > maxExp then .infinite neg else .finite neg m e

/-- The number of decimal digits of a natural (one for zero). -/
def decimalLength (n : Nat) : Nat := (Nat.toDigits 10 n).length

/-- The binary64 nearest to `digits * 10 ^ exp10`, negated when `neg`. Magnitudes beyond the
format's range give an infinity or a zero without building their powers of ten. -/
def ofScientific (neg : Bool) (digits : Nat) (exp10 : Int) : Binary64 :=
  if digits = 0 then .finite neg 0 minExp
  else if exp10 + decimalLength digits > 310 then .infinite neg
  else if exp10 + decimalLength digits < -330 then .finite neg 0 minExp
  else if 0 ≤ exp10 then roundRatio neg (digits * Nat.pow 10 exp10.toNat) 1
  else roundRatio neg digits (Nat.pow 10 (-exp10).toNat)

/-- The binary64 nearest to an integer, or `none` when the integer is beyond the finite range. -/
def ofInt? (n : Int) : Option Binary64 :=
  match roundRatio (n < 0) n.natAbs 1 with
  | .infinite _ => none
  | x => some x

/-- The exact magnitude of a finite value as a ratio of naturals. -/
def ratio (mant : Nat) (exp : Int) : Nat × Nat := scaleRatio mant 1 exp

/-- `x ≤ 0`, false for the NaN. -/
def nonPositive : Binary64 → Bool
  | .finite neg mant _ => neg || mant == 0
  | .infinite neg => neg
  | .nan => false

/-- `x < 0`, false for the NaN and for both zeros. -/
def negative : Binary64 → Bool
  | .finite neg mant _ => neg && mant != 0
  | .infinite neg => neg
  | .nan => false

/-- Whether the value equals an integer exactly (both zeros equal `0`). -/
def eqInt : Binary64 → Int → Bool
  | .finite neg mant exp, n =>
    if mant == 0 then n == 0
    else
      let (a, b) := ratio mant exp
      (neg == decide (n < 0)) && n != 0 && a == n.natAbs * b
  | _, _ => false

/-- The integer a value equals exactly, if any: both zeros give `0`, and a fraction, an
infinity or the NaN gives none. -/
def toInt? : Binary64 → Option Int
  | .finite neg mant exp =>
    let (a, b) := ratio mant exp
    if a % b = 0 then
      let n : Int := (a / b : Nat)
      some (if neg then -n else n)
    else none
  | _ => none

/-- Whether two values are equal as numbers: the zeros are equal, the NaN equals nothing. -/
def numEq : Binary64 → Binary64 → Bool
  | .finite n₁ m₁ e₁, .finite n₂ m₂ e₂ => (m₁ == 0 && m₂ == 0) || (n₁ == n₂ && m₁ == m₂ && e₁ == e₂)
  | .infinite n₁, .infinite n₂ => n₁ == n₂
  | _, _ => false

/-- `x < y` as numbers: false when either is the NaN, and the two zeros are equal. -/
def lt : Binary64 → Binary64 → Bool
  | .nan, _ => false
  | _, .nan => false
  | .infinite n₁, .infinite n₂ => n₁ && !n₂
  | .infinite n, .finite .. => n
  | .finite .., .infinite n => !n
  | .finite n₁ m₁ e₁, .finite n₂ m₂ e₂ =>
    let (a₁, b₁) := ratio m₁ e₁
    let (a₂, b₂) := ratio m₂ e₂
    -- compare `± a₁ / b₁` with `± a₂ / b₂` across the positive denominators
    decide ((if n₁ then -(a₁ : Int) else a₁) * b₂ < (if n₂ then -(a₂ : Int) else a₂) * b₁)

end Binary64

end NullGuard
