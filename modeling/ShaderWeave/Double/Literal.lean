/-
  Doubles as literals of the shading language.

  A double is written with the fewest digits that read back.  From `10 ^ -4` up to `10 ^ 16` it is
  positional and always has a digit after the point, so that the compiler sees a floating-point
  literal; outside it has an exponent, with a point only where there is a second digit.
-/
import ShaderWeave.Double.Shortest

namespace ShaderWeave.Double

/-- `n` zeros. -/
def zeros (n : Int) : Text := List.replicate n.toNat '0'

/-- Digits with a decimal point and at least one digit on both sides of it. -/
def positional (d : Digits) : Text :=
  let n : Int := d.digits.length
  if d.point ≤ 0 then "0.".toList ++ zeros (-d.point) ++ d.digits
  else if n ≤ d.point then d.digits ++ zeros (d.point - n) ++ ".0".toList
  else d.digits.take d.point.toNat ++ '.' :: d.digits.drop d.point.toNat

/-- Digits with an exponent. -/
def scientific (d : Digits) : Text :=
  let tail := d.digits.drop 1
  d.digits.take 1 ++ (if tail.isEmpty then [] else '.' :: tail) ++ 'e' :: Text.ofInt (d.point - 1)

/-- The literal of a double. -/
def literal (x : Double) : Text :=
  if x.isNaN then "NaN".toList
  else (if x.isNegative then ['-'] else []) ++
    if x.isInfinite then "inf".toList
    else if x.isZero then "0.0".toList
    else
      let d := shortest x.significand x.scale
      if -3 ≤ d.point ∧ d.point ≤ 16 then positional d else scientific d

example : literal ⟨0x3fe0000000000000⟩ = "0.5".toList := by decide +kernel
example :
    literal ⟨0x8000000000000000⟩ = "-0.0".toList ∧ literal nan = "NaN".toList := by decide +kernel
example : literal ⟨0x4341c37937e08000⟩ = "1e16".toList := by decide +kernel

end ShaderWeave.Double
