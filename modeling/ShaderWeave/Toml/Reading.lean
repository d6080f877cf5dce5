/-
  Reading the items of a document as values.

  Every numeral must have a value, and an integer must fit in 64 bits.  Inside a document a
  date-time may also be given in the form of a table, whose first key is `datetimeKey` with the
  date-time as a string; the other entries of such a table are not looked at.  The table of the
  whole document has no such form.
-/
import ShaderWeave.Toml
import ShaderWeave.Toml.Scalar

namespace ShaderWeave.Toml

/-- The key that marks a date-time in the form of a table. -/
def datetimeKey : Text := "$__toml_private_datetime".toList

namespace Item

/-- An integer that fits in 64 bits. -/
def fitsInt64 (n : Int) : Bool := -0x8000000000000000 ≤ n && n < 0x8000000000000000

/-- What stands under `datetimeKey`, where this is the first key. -/
def marked? : List (Text × Item) → Option Item
  | [] => none
  | (key, v) :: _ => if key = datetimeKey then some v else none

/-- A string as a date-time. -/
def datetime? : Item → Option Toml
  | .string s => if Scalar.isDatetime s then some (.datetime s) else none
  | _ => none

mutual

/-- The value of an item. -/
def value? : Item → Option Toml
  | .boolean b => some (.boolean b)
  | .integer n => if fitsInt64 n then some (.integer n) else none
  | .float x => some (.float x)
  | .unreadable => none
  | .string s => some (.string s)
  | .datetime written => some (.datetime written)
  | .array items => (values? items).map .array
  | .table entries =>
    match marked? entries with
    | some v => datetime? v
    | none => (entries? entries).map .table

/-- The values of the items of an array. -/
def values? : List Item → Option (List Toml)
  | [] => some []
  | v :: rest =>
    match v.value? with
    | none => none
    | some v => (values? rest).map (v :: ·)

/-- The values of the entries of a table. -/
def entries? : List (Text × Item) → Option (List (Text × Toml))
  | [] => some []
  | (key, v) :: rest =>
    match v.value? with
    | none => none
    | some v => (entries? rest).map ((key, v) :: ·)

end

end Item
end ShaderWeave.Toml
