/-
  Aliases: the names that open loops bind.

  Each name has a stack of values, the innermost first, so that an inner loop can shadow an outer
  one and give the outer value back when it ends.  The table also keeps, scope by scope, which names
  were bound, in order; closing a scope takes one value off the stack of each of them, and a name
  with no value left is forgotten.
-/
import ShaderWeave.Entries
import ShaderWeave.Text

namespace ShaderWeave

/-- The bound names with their values, and the names of each open scope, innermost first. -/
structure AliasTable where
  values : List (Text × List Text)
  scopes : List (List Text)
  deriving DecidableEq, Repr

namespace AliasTable

/-- No open scope. -/
def empty : AliasTable := ⟨[], []⟩

/-- Puts a value on the stack of a name; a name without a stack gets one in front. -/
def bind (values : List (Text × List Text)) (name value : Text) : List (Text × List Text) :=
  match Entries.get? name values with
  | some stack => Entries.set name (value :: stack) values
  | none => (name, [value]) :: values

/-- Takes the innermost value off the stack of a name; `none` where there is no value. -/
def unbind? (values : List (Text × List Text)) (name : Text) : Option (List (Text × List Text)) :=
  match Entries.get? name values with
  | some (_ :: []) => some (Entries.erase name values)
  | some (_ :: stack) => some (Entries.set name stack values)
  | _ => none

/-- Opens a scope that binds names to values; of a name bound twice the last value counts. -/
def push (t : AliasTable) (bindings : List (Text × Text)) : AliasTable :=
  ⟨bindings.foldl (fun s b => bind s b.1 b.2) t.values, bindings.map Prod.fst :: t.scopes⟩

/-- Closes the innermost scope; `none` where no scope is open. -/
def pop? (t : AliasTable) : Option AliasTable :=
  match t.scopes with
  | [] => none
  | scope :: outer => (scope.foldlM unbind? t.values).map fun values => ⟨values, outer⟩

/-- The innermost value of a name. -/
def get? (t : AliasTable) (name : Text) : Option Text :=
  (Entries.get? name t.values).bind List.head?

/-- The number of open scopes. -/
def openScopes (t : AliasTable) : Nat := t.scopes.length

/-- The path with the part before its first dot replaced by that part's value, if it has one. -/
def resolve (t : AliasTable) (path : Text) : Text :=
  match t.get? (path.takeWhile (· ≠ '.')) with
  | some value => value ++ path.dropWhile (· ≠ '.')
  | none => path

end AliasTable
end ShaderWeave
