/-
  What stands in a TOML document, before anyone reads it.

  The grammar admits numerals that have no value: a float beyond the largest double, a base mark
  without digits, a grouped decimal number with other characters in its groups.  Such an item is
  `unreadable`.  It spoils the document only for those who read it; an item that is passed over
  unread does no harm.
-/
import ShaderWeave.Double
import ShaderWeave.Text

namespace ShaderWeave.Toml

/-- An item of a TOML document. -/
inductive Item where
  | boolean (b : Bool)
  | integer (n : Int)
  | float (x : Double)
  /-- A numeral without a value. -/
  | unreadable
  | string (s : Text)
  | datetime (written : Text)
  | array (items : List Item)
  | table (entries : List (Text × Item))
  deriving Repr

namespace Item

/-- An integer of at most 128 bits, signed or not. -/
def fitsAnyInteger (n : Int) : Bool :=
  -0x80000000000000000000000000000000 ≤ n && n < 0x100000000000000000000000000000000

mutual

/-- Whether an item can be read by someone who takes any value. -/
def isReadable : Item → Bool
  | .boolean _ | .float _ | .string _ | .datetime _ => true
  | .integer n => fitsAnyInteger n
  | .unreadable => false
  | .array items => areReadable items
  | .table entries => entriesReadable entries

/-- `isReadable` for the items of an array. -/
def areReadable : List Item → Bool
  | [] => true
  | v :: rest => v.isReadable && areReadable rest

/-- `isReadable` for the entries of a table. -/
def entriesReadable : List (Text × Item) → Bool
  | [] => true
  | (_, v) :: rest => v.isReadable && entriesReadable rest

end

end Item
end ShaderWeave.Toml
