/-
  Values as text of the shading language: what a substitution writes for them.
-/
import ShaderWeave.Dictionary
import ShaderWeave.Double.Literal

namespace ShaderWeave

/-- `name(a,b,…)`. -/
def Value.constructorCall (name : String) (arguments : List Text) : Text :=
  name.toList ++ '(' :: (List.intercalate [','] arguments ++ [')'])

/-- The text of a value; a nested dictionary has none. -/
def Value.literal? : Value → Option Text
  | .bool b => some (if b then ['1'] else ['0'])
  | .int n => some (Text.ofInt n.toInt)
  | .double x => some x.literal
  | .string s => some s
  | .ivec2 x y => some (constructorCall "ivec2" ([x, y].map fun n => Text.ofInt n.toInt))
  | .ivec3 x y z => some (constructorCall "ivec3" ([x, y, z].map fun n => Text.ofInt n.toInt))
  | .dvec2 x y => some (constructorCall "dvec2" ([x, y].map Double.literal))
  | .dvec3 x y z => some (constructorCall "dvec3" ([x, y, z].map Double.literal))
  | .dictionary _ => none

example : Value.literal? (.ivec2 1 (-2)) = some "ivec2(1,-2)".toList := by decide

end ShaderWeave
