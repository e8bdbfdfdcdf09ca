import C0Stack.Decimal.Shortest

/-!
# Doubles

A double-precision number as its 64 bits: one for the sign, eleven for the exponent, 52 for the fraction. A decimal is read by
rounding to nearest, ties to even, and a double is written as the shortest decimal that reads back, without an exponent.
-/

namespace C0Stack

/-- A double-precision number. -/
structure Double where
  bits : UInt64
deriving DecidableEq, Repr, Inhabited

namespace Double

/-- The bits of positive infinity, as a number; every larger pattern without sign is no number. -/
def infinityBits : Nat := 0x7FF0000000000000

/-- The bits without the sign. -/
def magnitude (x : Double) : Nat := x.bits.toNat % Nat.pow 2 63

/-- The sign bit is set. -/
def isNegative (x : Double) : Bool := Nat.pow 2 63 ≤ x.bits.toNat

/-- The exponent bits. -/
def exponentField (x : Double) : Nat := x.magnitude / Nat.pow 2 52

/-- The integer `m` of a finite double `m * 2 ^ q`. -/
def significand (x : Double) : Nat :=
  if x.exponentField = 0 then x.magnitude else Nat.pow 2 52 + x.magnitude % Nat.pow 2 52

/-- The exponent `q` of a finite double `m * 2 ^ q`. -/
def scale (x : Double) : Int := (max x.exponentField 1 : Nat) - 1075

/-- The text of a double: the shortest decimal that reads back, or the name of what is not a number. -/
def render (x : Double) : String :=
  if infinityBits < x.magnitude then "NaN"
  else
    let sign := if x.isNegative then "-" else ""
    if x.magnitude = infinityBits then sign ++ "inf"
    else if x.magnitude = 0 then sign ++ "0"
    else sign ++ (Decimal.shortest x.significand x.scale).positional

/-- The quotient rounded to nearest, ties to even. -/
def roundDiv (num den : Nat) : Nat :=
  let d := num / den
  let twice := 2 * (num % den)
  if twice < den ∨ (twice = den ∧ d % 2 = 0) then d else d + 1

/-- The power of two at or below a positive fraction. -/
def floorLog (num den : Nat) : Int :=
  let t : Int := (Nat.log2 num : Int) - Nat.log2 den
  let (twoNum, twoDen) := Decimal.power 2 t
  if den * twoNum ≤ num * twoDen then t else t - 1

/-- The positive double nearest to a positive fraction, ties to even; infinity if it is out of range. -/
def ofFraction (num den : Nat) : Double :=
  let q := max (floorLog num den - 52) (-1074)
  let (twoNum, twoDen) := Decimal.power 2 q
  let bits := (q + 1074).toNat * Nat.pow 2 52 + roundDiv (num * twoDen) (den * twoNum)
  ⟨(min bits infinityBits).toUInt64⟩

/-- The double nearest to a decimal. Far beyond the range no power is computed: the result is infinity or zero. -/
def ofDecimal (d : Decimal) : Double :=
  let leading := Decimal.digitCount d.digits + d.exponent
  if d.digits = 0 ∨ leading < -400 then ⟨0⟩
  else if 400 < leading then ⟨infinityBits.toUInt64⟩
  else
    let (num, den) := Decimal.power 10 d.exponent
    ofFraction (d.digits * num) den

end Double

end C0Stack
