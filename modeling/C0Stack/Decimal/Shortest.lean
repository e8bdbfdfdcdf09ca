/-!
# Shortest decimals

The decimal with the fewest digits that lies among the reals rounding to a binary number `m * 2 ^ q` of 53 bits, and its text in
positional notation. Everything is exact arithmetic on natural numbers.
-/

namespace C0Stack

/-- The number `digits * 10 ^ exponent`. -/
structure Decimal where
  digits : Nat
  exponent : Int
deriving DecidableEq, Repr

namespace Decimal

/-- The power as a fraction: numerator and denominator. -/
def power (base : Nat) (exponent : Int) : Nat × Nat :=
  if 0 ≤ exponent then (Nat.pow base exponent.toNat, 1) else (1, Nat.pow base (-exponent).toNat)

/-- The number of digits of `n` in base ten. -/
def digitCount (n : Nat) : Nat := (Nat.toDigits 10 n).length

/-- How many digits of the fraction stand before the point; if none does, minus the number of zeros that follow it. -/
def leading (num den : Nat) : Int :=
  if den ≤ num then digitCount (num / den) else digitCount (num * Nat.pow 10 400 / den) - 400

/-- The decimal of the grid `10 ^ e` that rounds to `m * 2 ^ q`: of two the nearer, and the upper one if both are equally near. -/
def onGrid? (m : Nat) (q e : Int) : Option Decimal :=
  let (twoNum, twoDen) := power 2 (q - 2)
  let (tenNum, tenDen) := power 10 e
  let unit := tenNum * twoDen
  let measure := twoNum * tenDen
  let value := 4 * m * measure
  let low := (if m = Nat.pow 2 52 ∧ -1074 < q then 4 * m - 1 else 4 * m - 2) * measure
  let high := (4 * m + 2) * measure
  let inside (d : Nat) : Bool :=
    if m % 2 = 0 then low ≤ d * unit && d * unit ≤ high else low < d * unit && d * unit < high
  let d := value / unit
  match inside d, inside (d + 1) with
  | true, true => some ⟨if 2 * value < (2 * d + 1) * unit then d else d + 1, e⟩
  | true, false => some ⟨d, e⟩
  | false, true => some ⟨d + 1, e⟩
  | false, false => none

/-- The decimal with the fewest digits that rounds to `m * 2 ^ q`. Seventeen digits always suffice for 53 bits. -/
def shortest (m : Nat) (q : Int) : Decimal :=
  let (num, den) := power 2 q
  let k := leading (m * num) den
  ((List.range' 1 17).findSome? fun (n : Nat) => onGrid? m q (k - n)).getD ⟨m * num / den, 0⟩

/-- The decimal without exponent: no zero ends a fraction, and a point stands only before a digit. -/
def positional (d : Decimal) : String :=
  let digits := Nat.toDigits 10 d.digits
  let kept := (digits.reverse.dropWhile (· == '0')).reverse
  let before := digits.length + d.exponent
  String.ofList <|
    if before ≤ 0 then '0' :: '.' :: List.replicate (-before).toNat '0' ++ kept
    else if kept.length ≤ before then kept ++ List.replicate (before.toNat - kept.length) '0'
    else kept.take before.toNat ++ '.' :: kept.drop before.toNat

end Decimal

end C0Stack
