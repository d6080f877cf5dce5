/-
  The fewest decimal digits that read back as the same double.

  A positive finite double is `V / W` in natural numbers, and the reals that round to it form an
  interval from `L / W` to `H / W`, ends included when the significand is even.  For 1, 2, … 17
  digits the double's two neighbours on that decimal grid are tested against the interval; the first
  grid with a hit wins, of two hits the nearer, of two equally near the upper.
-/
import ShaderWeave.Double
import ShaderWeave.Text

namespace ShaderWeave.Double

/-- Decimal digits `d₁ d₂ …` standing for `0.d₁d₂… · 10 ^ point`. -/
structure Digits where
  digits : Text
  point : Int
  deriving DecidableEq, Repr

/-- A positive fraction and the ends of the interval that rounds to it, over one denominator. -/
structure Interval where
  value : Nat
  low : Nat
  high : Nat
  den : Nat
  closed : Bool

/-- The interval around `m · 2 ^ q`.  Below a power of two the doubles lie half as far apart. -/
def interval (m : Nat) (q : Int) : Interval :=
  let low := if m = leadingBit then 4 * m - 1 else 4 * m - 2
  let up := if 2 ≤ q then Nat.pow 2 (q - 2).toNat else 1
  let den := if 2 ≤ q then 1 else Nat.pow 2 (2 - q).toNat
  ⟨4 * m * up, low * up, (4 * m + 2) * up, den, m % 2 == 0⟩

/-- How many places a positive fraction has before the decimal point; negative counts are zeros
    after it.  No double is below `10 ^ -400`. -/
def decimalPlace (num den : Nat) : Int :=
  (Nat.toDigits 10 (num * Nat.pow 10 400 / den)).length - 400

/-- The grid point with `n` digits that lies in the interval and is nearest to its value. -/
def onGrid? (i : Interval) (place : Int) (n : Nat) : Option Nat :=
  let shift := place - n
  let up := if shift < 0 then Nat.pow 10 (-shift).toNat else 1
  let den := i.den * if shift < 0 then 1 else Nat.pow 10 shift.toNat
  let value := i.value * up
  let d := value / den
  let lower := if i.closed then i.low * up ≤ d * den else i.low * up < d * den
  let upper := if i.closed then (d + 1) * den ≤ i.high * up else (d + 1) * den < i.high * up
  if lower ∧ upper then some (if 2 * (value % den) < den then d else d + 1)
  else if lower then some d
  else if upper then some (d + 1)
  else none

/-- Tries grids of `n`, `n + 1`, … digits, `more` of them; the last is taken as it is. -/
def search (i : Interval) (place : Int) (n : Nat) : Nat → Digits
  | 0 => ⟨Nat.toDigits 10 (i.value / i.den), place⟩
  | more + 1 =>
    match onGrid? i place n with
    | some d =>
      let written := Nat.toDigits 10 d
      ⟨Text.trimRight (· == '0') written, place + (written.length - n : Int)⟩
    | none => search i place (n + 1) more

/-- The shortest digits of `m · 2 ^ q`, for positive `m`. -/
def shortest (m : Nat) (q : Int) : Digits :=
  let i := interval m q
  search i (decimalPlace i.value i.den) 1 17

example : shortest leadingBit (-53) = ⟨['5'], 0⟩ := by decide +kernel
example : shortest 1 (-1074) = ⟨['5'], -323⟩ := by decide +kernel

end ShaderWeave.Double
