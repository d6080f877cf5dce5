/-
  Dictionaries: the ordered, nested values that substitutions read and loops run over.

  Keys keep the order in which they were first set; that is the order in which a loop visits them.
  A dotted path walks nested dictionaries one key at a time, so a key that itself has a dot in it
  can be set and visited but no path reaches it.
-/
import ShaderWeave.Double
import ShaderWeave.Entries
import ShaderWeave.Text

namespace ShaderWeave

/-- A value a dictionary can hold. -/
inductive Value where
  | bool (b : Bool)
  | int (n : Int32)
  | double (x : Double)
  | string (s : Text)
  | ivec2 (x y : Int32)
  | ivec3 (x y z : Int32)
  | dvec2 (x y : Double)
  | dvec3 (x y z : Double)
  | dictionary (entries : List (Text × Value))
  deriving Repr

/-- A dictionary: its entries in the order of their keys. -/
structure Dictionary where
  entries : List (Text × Value)
  deriving Repr

/-- The types of values, as a typed look-up names them. -/
inductive Value.Kind where
  | bool | int | double | string | ivec2 | ivec3 | dvec2 | dvec3 | dictionary
  deriving DecidableEq, Repr

/-- The type of a value. -/
def Value.kind : Value → Value.Kind
  | .bool _ => .bool
  | .int _ => .int
  | .double _ => .double
  | .string _ => .string
  | .ivec2 .. => .ivec2
  | .ivec3 .. => .ivec3
  | .dvec2 .. => .dvec2
  | .dvec3 .. => .dvec3
  | .dictionary _ => .dictionary

namespace Dictionary

/-- The dictionary without entries. -/
def empty : Dictionary := ⟨[]⟩

/-- Puts a value under a single key; dots in the key are not split. -/
def set (d : Dictionary) (key : Text) (value : Value) : Dictionary :=
  ⟨Entries.set key value d.entries⟩

/-- The dictionary made by setting pairs in order. -/
def ofList (pairs : List (Text × Value)) : Dictionary :=
  pairs.foldl (fun d e => d.set e.1 e.2) empty

/-- The keys, in order. -/
def keys (d : Dictionary) : List Text := d.entries.map Prod.fst

/-- The number of keys. -/
def size (d : Dictionary) : Nat := d.entries.length

/-- Walks keys from entries through nested dictionaries. -/
def follow : List Text → List (Text × Value) → Option Value
  | [], _ => none
  | [key], entries => Entries.get? key entries
  | key :: more, entries =>
    match Entries.get? key entries with
    | some (.dictionary inner) => follow more inner
    | _ => none

/-- The value a dotted path leads to. -/
def value? (d : Dictionary) (path : Text) : Option Value := follow (path.splitOn '.') d.entries

/-- Whether a dotted path leads to a value. -/
def hasKey (d : Dictionary) (path : Text) : Bool := (d.value? path).isSome

/-- The dictionary a dotted path leads to. -/
def dictionary? (d : Dictionary) (path : Text) : Option Dictionary :=
  match d.value? path with
  | some (.dictionary entries) => some ⟨entries⟩
  | _ => none

/-- The value a dotted path leads to, if it has the wanted type. -/
def get? (d : Dictionary) (kind : Value.Kind) (path : Text) : Option Value :=
  (d.value? path).filter fun v => v.kind = kind

end Dictionary

/-! ## Equality

  Two dictionaries are equal when they have equal entries in the same order.  Doubles are compared
  as numbers. -/

mutual

/-- Equality of values. -/
def Value.equal : Value → Value → Bool
  | .bool a, .bool b => a == b
  | .int a, .int b => a == b
  | .double a, .double b => a.equal b
  | .string a, .string b => a == b
  | .ivec2 a b, .ivec2 a' b' => a == a' && b == b'
  | .ivec3 a b c, .ivec3 a' b' c' => a == a' && b == b' && c == c'
  | .dvec2 a b, .dvec2 a' b' => a.equal a' && b.equal b'
  | .dvec3 a b c, .dvec3 a' b' c' => a.equal a' && b.equal b' && c.equal c'
  | .dictionary a, .dictionary b => Value.equalEntries a b
  | _, _ => false

/-- Equality of entries, in order. -/
def Value.equalEntries : List (Text × Value) → List (Text × Value) → Bool
  | [], [] => true
  | (k, v) :: rest, (k', v') :: rest' => k == k' && v.equal v' && Value.equalEntries rest rest'
  | _, _ => false

end

/-- Equality of dictionaries. -/
def Dictionary.equal (d e : Dictionary) : Bool := Value.equalEntries d.entries e.entries

end ShaderWeave
