/-
  Doubles: binary floating-point numbers of 64 bits, as their bit patterns.

  A pattern has a sign, an exponent field of 11 bits and a fraction field of 52.  Comparison is that
  of the number format, not that of the patterns: a NaN differs from everything, and the two zeros
  agree.  A finite double is `significand · 2 ^ scale` up to its sign.
-/

namespace ShaderWeave

/-- A double, given by its 64 bits. -/
structure Double where
  bits : UInt64
  deriving DecidableEq, Repr

namespace Double

/-- The weight of the sign bit, `2 ^ 63`. -/
def signBit : Nat := 0x8000000000000000

/-- The weight of the leading bit of a significand, `2 ^ 52`. -/
def leadingBit : Nat := 0x10000000000000

/-- The sign bit is set. -/
def isNegative (x : Double) : Bool := signBit ≤ x.bits.toNat

/-- The eleven bits of the exponent. -/
def exponentField (x : Double) : Nat := x.bits.toNat / leadingBit % 2048

/-- The fifty-two bits of the fraction. -/
def fractionField (x : Double) : Nat := x.bits.toNat % leadingBit

/-- Not a number. -/
def isNaN (x : Double) : Bool := x.exponentField == 2047 && x.fractionField != 0

/-- One of the two infinities. -/
def isInfinite (x : Double) : Bool := x.exponentField == 2047 && x.fractionField == 0

/-- One of the two zeros. -/
def isZero (x : Double) : Bool := x.bits.toNat % signBit == 0

/-- Equality of numbers: a NaN equals nothing, the two zeros are equal. -/
def equal (x y : Double) : Bool :=
  !x.isNaN && !y.isNaN && (x.bits == y.bits || (x.isZero && y.isZero))

/-- The significand of a finite double, with its leading bit. -/
def significand (x : Double) : Nat :=
  if x.exponentField = 0 then x.fractionField else leadingBit + x.fractionField

/-- The power of two that scales the significand of a finite double. -/
def scale (x : Double) : Int :=
  if x.exponentField = 0 then -1074 else x.exponentField - 1075

/-- The not-a-number that stands for all of them. -/
def nan : Double := ⟨0x7FF8000000000000⟩

/-- An infinity. -/
def infinity (negative : Bool) : Double :=
  ⟨if negative then 0xFFF0000000000000 else 0x7FF0000000000000⟩

/-- The two zeros are equal as numbers and differ as patterns. -/
example : equal ⟨0⟩ ⟨0x8000000000000000⟩ = true ∧ equal nan nan = false := by decide

end Double
end ShaderWeave
