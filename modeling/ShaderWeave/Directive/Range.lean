/-
  Ranges: the collections `min..max` of loops without a key.

  A range is visited like a dictionary: its keys are 1, 2, … and its values the integers from `min`
  to `max`, both included, as text.  The dictionary goes by a name that spells out both bounds.
-/
import ShaderWeave.Dictionary
import ShaderWeave.Error

namespace ShaderWeave

/-- The integers from `min` to `max`, both included. -/
structure Range where
  min : Int32
  max : Int32
  deriving DecidableEq, Repr

namespace Range

/-- Reads one bound; white space around it is allowed. -/
def parseBound (range bound : Text) : Except Fault Int32 :=
  match Text.int32? bound.trim with
  | some n => .ok n
  | none => .error (.rangeBound bound range)

/-- Reads `min..max`. -/
def parse (range : Text) : Except Fault Range := do
  match range.cutDots with
  | none => .error (.rangeDots range)
  | some (min, max) =>
    let min ← parseBound range min
    let max ← parseBound range max
    return ⟨min, max⟩

/-- The name of a range: `(Range min to max)`. -/
def name (r : Range) : Text :=
  "(Range ".toList ++ Text.ofInt r.min.toInt ++ " to ".toList ++ Text.ofInt r.max.toInt ++ [')']

/-- How many integers the range has. -/
def size (r : Range) : Nat := (r.max.toInt - r.min.toInt + 1).toNat

/-- The range as a dictionary from positions to integers. -/
def dictionary (r : Range) : Dictionary :=
  ⟨(List.range r.size).map fun (i : Nat) =>
    (Text.ofNat (i + 1), Value.string (Text.ofInt (r.min.toInt + i)))⟩

example : parse "-1..+1".toList = .ok ⟨-1, 1⟩ := rfl
example : (Range.mk (-1) 1).dictionary.keys = ["1".toList, "2".toList, "3".toList] := by decide

end Range
end ShaderWeave
