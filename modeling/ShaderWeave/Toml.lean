/-
  TOML values: what a document says, keys in the order of the document's tables.

  Integers are not bounded here; who takes one decides what fits.
-/
import ShaderWeave.Double
import ShaderWeave.Text

namespace ShaderWeave

/-- A value of a TOML document. -/
inductive Toml where
  | boolean (b : Bool)
  | integer (n : Int)
  | float (x : Double)
  | string (s : Text)
  | datetime (written : Text)
  | array (items : List Toml)
  | table (entries : List (Text × Toml))
  deriving Repr

end ShaderWeave
