import NullGuard.Number.Binary64

/-!
# Shortest decimal text of a binary64

`Binary64.toRepr` writes a value with the fewest significant decimal digits that read back
(through `Binary64.ofScientific`) as the same value; among candidates of that length the
nearest to the exact value wins. The digits are laid out positionally when the decimal point
falls between 4 places left of the first digit and 16 places right of it, and in exponent
form (`1e-05`, `1.5e+16`) otherwise; a positional integer keeps a trailing `.0`.
-/

namespace NullGuard.Binary64

/-- `⌊log₁₀ n⌋` for a positive natural. -/
def log10Nat (n : Nat) : Nat := decimalLength n - 1

/-- `⌊log₁₀ (num / den)⌋` of a positive ratio. -/
def log10Ratio (num den : Nat) : Int :=
  if num ≥ den then log10Nat (num / den)
  else
    let f := log10Nat (den / num)
    let k : Nat := if num * Nat.pow 10 f ≥ den then f else f + 1
    Int.neg k

/-- The ratio `num / den` divided by `10 ^ s`, rounded to the nearest natural, ties to even. -/
def digitsAt (num den : Nat) (s : Int) : Nat :=
  if 0 ≤ s then roundHalfEven num (den * Nat.pow 10 s.toNat)
  else roundHalfEven (num * Nat.pow 10 (-s).toNat) den

/-- Whether `d * 10 ^ s` lies below the ratio `num / den`. -/
def scaledBelow (d : Nat) (s : Int) (num den : Nat) : Bool :=
  if 0 ≤ s then d * Nat.pow 10 s.toNat * den < num else d * den < num * Nat.pow 10 (-s).toNat

/-- Drop the trailing zeros of a digit string `d * 10 ^ s`, keeping its value. -/
def trimZeros : Nat → Nat × Int → Nat × Int
  | 0, p => p
  | fuel + 1, (d, s) => if d ≠ 0 && d % 10 == 0 then trimZeros fuel (d / 10, s + 1) else (d, s)

/-- The shortest digits `(d, s)` with `d * 10 ^ s` reading back as the positive finite value
`mant * 2 ^ exp`: for each length `k` from 1 on, the nearest `k`-digit decimal, else its
neighbour on the other side of the value. -/
def shortestDigits (mant : Nat) (exp : Int) : Nat × Int :=
  let (num, den) := ratio mant exp
  let e10 := log10Ratio num den
  let target := Binary64.finite false mant exp
  let reads (d : Nat) (s : Int) : Bool := d ≠ 0 && ofScientific false d s == target
  let attempt (k : Nat) : Option (Nat × Int) :=
    let s := e10 - k
    let d := digitsAt num den s
    if reads d s then some (d, s)
    else
      let other := if scaledBelow d s num den then d + 1 else d - 1
      if reads other s then some (other, s) else none
  let found := (List.range 17).findSome? attempt
  let (d, s) := found.getD (digitsAt num den (e10 - 16), e10 - 16)
  trimZeros (decimalLength d) (d, s)

/-- The exponent of the exponent form: a sign and at least two digits. -/
def exponentText (e : Int) : String :=
  let digits := toString e.natAbs
  (if e < 0 then "-" else "+") ++ (if digits.length < 2 then "0" ++ digits else digits)

/-- Lay out the digit string `ds` whose decimal point sits `decpt` places after its first digit. -/
def layout (ds : String) (decpt : Int) : String :=
  if decpt ≤ -4 || decpt > 16 then
    let rest := ds.drop 1
    String.singleton (ds.front) ++ (if rest.isEmpty then "" else "." ++ rest.toString) ++ "e" ++
      exponentText (decpt - 1)
  else if decpt ≤ 0 then
    "0." ++ String.ofList (List.replicate (-decpt).toNat '0') ++ ds
  else if decpt ≥ ds.length then
    ds ++ String.ofList (List.replicate (decpt.toNat - ds.length) '0') ++ ".0"
  else
    (ds.take decpt.toNat).toString ++ "." ++ (ds.drop decpt.toNat).toString

/-- The shortest text that reads back as the value: `inf`, `-inf` and `nan` for the
non-finite ones, `0.0` and `-0.0` for the zeros. -/
def toRepr : Binary64 → String
  | .nan => "nan"
  | .infinite neg => if neg then "-inf" else "inf"
  | .finite neg mant exp =>
    let sign := if neg then "-" else ""
    if mant == 0 then sign ++ "0.0"
    else
      let (d, s) := shortestDigits mant exp
      let ds := toString d
      sign ++ layout ds (s + ds.length)

end NullGuard.Binary64
