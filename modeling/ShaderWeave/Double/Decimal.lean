/-
  Decimals read as doubles.

  A decimal is `digits · 10 ^ exponent`, an exact fraction of natural numbers.  It is rounded once,
  to the nearest double, a tie to the even significand: `nearest num den` chooses the scale that
  leaves 53 bits (fewer only at the smallest scale), rounds the quotient at that scale, and adds it
  to the patterns of the smaller scales, so that a carry runs into the exponent by itself.
-/
import ShaderWeave.Double

namespace ShaderWeave.Double

/-- The quotient rounded to the nearest natural number, a tie to the even one. -/
def roundQuotient (num den : Nat) : Nat :=
  let q := num / den
  let r := num % den
  if 2 * r < den then q
  else if den < 2 * r then q + 1
  else q + q % 2

/-- The greatest `e` with `2 ^ e ≤ num / den`, for positive `num` and `den`. -/
def floorLog2 (num den : Nat) : Int :=
  let e : Int := (Nat.log2 num : Int) - Nat.log2 den
  let reached := if 0 ≤ e then den * Nat.pow 2 e.toNat ≤ num else den ≤ num * Nat.pow 2 (-e).toNat
  if reached then e else e - 1

/-- The magnitude pattern of the double nearest to a positive fraction; it may lie beyond the finite
    ones. -/
def nearest (num den : Nat) : Nat :=
  let scale := max (floorLog2 num den - 52) (-1074)
  let m := if 0 ≤ scale then roundQuotient num (den * Nat.pow 2 scale.toNat)
    else roundQuotient (num * Nat.pow 2 (-scale).toNat) den
  (scale + 1074).toNat * leadingBit + m

/-- The pattern with a sign. -/
def ofMagnitude (negative : Bool) (magnitude : Nat) : Double :=
  ⟨.ofNat (if negative then signBit + magnitude else magnitude)⟩

/-- The double nearest to `± digits · 10 ^ exponent`, or `none` where that is beyond the largest.
    Decimals of more than 400 places before the point, or whose first place is more than 400 after
    it, are settled without computing the power. -/
def ofDecimal? (negative : Bool) (digits : Nat) (exponent : Int) : Option Double :=
  let places : Int := (Nat.toDigits 10 digits).length + exponent
  if digits = 0 ∨ places < -400 then some (ofMagnitude negative 0)
  else if 400 < places then none
  else
    let magnitude := if 0 ≤ exponent then nearest (digits * Nat.pow 10 exponent.toNat) 1
      else nearest digits (Nat.pow 10 (-exponent).toNat)
    if magnitude < 2047 * leadingBit then some (ofMagnitude negative magnitude) else none

/-- The double nearest to an integer of at most 64 bits. -/
def ofInt (n : Int) : Double :=
  if n = 0 then ofMagnitude false 0 else ofMagnitude (n < 0) (nearest n.natAbs 1)

example : ofDecimal? false 5 (-1) = some ⟨0x3fe0000000000000⟩ := by decide +kernel
example : ofDecimal? true 1 400 = none ∧ ofInt (-2) = ⟨0xc000000000000000⟩ := by decide +kernel
example :
    ofDecimal? false 49 (-325) = some ⟨1⟩ ∧ ofDecimal? false 2 (-324) = some ⟨0⟩ := by
  decide +kernel

end ShaderWeave.Double
