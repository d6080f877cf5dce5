/-
  Dictionaries from TOML documents.

  Tables become nested dictionaries and scalars keep their kind; arrays of two or three numbers
  become vectors, of integers where all of them fit in 32 bits and of doubles otherwise.  What has
  no counterpart is refused: the first such value, depth first and in the order of the keys, is
  named by its own key.
-/
import ShaderWeave.Dictionary
import ShaderWeave.Error
import ShaderWeave.Toml.Document
import ShaderWeave.Toml.Reading

namespace ShaderWeave

/-- An integer item that fits in 32 bits. -/
def Toml.int32? : Toml → Option Int32
  | .integer n => toInt32? n
  | _ => none

/-- A number as a double. -/
def Toml.double? : Toml → Option Double
  | .float x => some x
  | .integer n => some (Double.ofInt n)
  | _ => none

/-- The vector of an array's items. -/
def Value.ofItems (items : List Toml) : Except StorageFault Value :=
  match items.mapM Toml.int32? with
  | some [x, y] => .ok (.ivec2 x y)
  | some [x, y, z] => .ok (.ivec3 x y z)
  | some _ => .error .vectorSize
  | none =>
    match items.mapM Toml.double? with
    | some [x, y] => .ok (.dvec2 x y)
    | some [x, y, z] => .ok (.dvec3 x y z)
    | some _ => .error .vectorSize
    | none => .error .vectorElement

mutual

/-- The value under a key. -/
def Value.ofToml (key : Text) : Toml → Except Error Value
  | .boolean b => .ok (.bool b)
  | .integer n =>
    match toInt32? n with
    | some n => .ok (.int n)
    | none => .error (.unstorable key .integerRange)
  | .float x => .ok (.double x)
  | .string s => .ok (.string s)
  | .datetime _ => .error (.unstorable key .datetime)
  | .array items => (Value.ofItems items).mapError (.unstorable key)
  | .table entries => (Value.ofEntries entries).map .dictionary

/-- The entries of a table. -/
def Value.ofEntries : List (Text × Toml) → Except Error (List (Text × Value))
  | [] => .ok []
  | (key, v) :: rest =>
    match Value.ofToml key v with
    | .error e => .error e
    | .ok v => (Value.ofEntries rest).map ((key, v) :: ·)

end

namespace Dictionary

/-- The dictionary of a table. -/
def ofToml (table : List (Text × Toml)) : Except Error Dictionary :=
  (Value.ofEntries table).map fun entries => ⟨entries⟩

/-- The dictionary of a document.  A malformed document, and a numeral or date-time that cannot be
    read, come before any value that cannot be stored. -/
def parse (document : Text) : Except Error Dictionary :=
  match (Toml.Document.parse? document).bind Toml.Item.entries? with
  | none => .error .configuration
  | some table => ofToml table

end Dictionary
end ShaderWeave
