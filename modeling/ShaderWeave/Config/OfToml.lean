/-
  Configurations from TOML documents.

  Every field may be missing.  A field of the wrong kind or out of range makes the whole document
  invalid; fields that no one knows are passed over, as long as their numbers can be read at all.
  The context is a table of its three fields, or an array of them in order, of which the items after
  these three are not looked at; its profile is a name, or a table whose only key is the name.
-/
import ShaderWeave.Config
import ShaderWeave.Error
import ShaderWeave.Toml.Document

namespace ShaderWeave.Config

open Toml (Item)

/-- A natural number below a bound. -/
def natBelow? (bound : Nat) : Item → Option Nat
  | .integer n => if 0 ≤ n ∧ n < bound then some n.toNat else none
  | _ => none

/-- A string as a path. -/
def path? : Item → Option Path
  | .string s => some ⟨s⟩
  | _ => none

/-- A profile by its name. -/
def profileNamed? (name : Text) : Option Profile :=
  if name = Profile.core.name then some .core
  else if name = Profile.compatibility.name then some .compatibility
  else none

/-- A profile. -/
def profile? : Item → Option Profile
  | .string name => profileNamed? name
  | .table [(name, .table [])] => profileNamed? name
  | .table [(name, .array [])] => profileNamed? name
  | _ => none

/-- The three fields of a context. -/
def contextOf? (major minor profile : Item) : Option ContextVersion := do
  return ⟨← natBelow? 0x100000000 major, ← natBelow? 0x100000000 minor, ← profile? profile⟩

/-- Whether the fields that are not among the known ones can be read. -/
def othersReadable (known : List Text) (table : List (Text × Item)) : Bool :=
  Item.entriesReadable (table.filter fun e => !known.contains e.1)

/-- A context. -/
def context? : Item → Option ContextVersion
  | .array (major :: minor :: profile :: _) => contextOf? major minor profile
  | .table table => do
    let fields := ["major".toList, "minor".toList, "profile".toList]
    if othersReadable fields table then
      contextOf? (← Entries.get? "major".toList table) (← Entries.get? "minor".toList table)
        (← Entries.get? "profile".toList table)
    else none
  | _ => none

/-- Search directories. -/
def includePaths? : Item → Option (List Path)
  | .array items => items.mapM path?
  | _ => none

/-- A truth value. -/
def flag? : Item → Option Bool
  | .boolean b => some b
  | _ => none

/-- A field of a table through its reader, or its default where the field is missing. -/
def field? {α : Type} (table : List (Text × Item)) (name : String) (read? : Item → Option α)
    (default : α) : Option α :=
  match Entries.get? name.toList table with
  | none => some default
  | some v => read? v

/-- The configuration of a table. -/
def ofToml? (table : List (Text × Item)) : Option Config := do
  let standard : Config := {}
  let includePaths ← field? table "include_paths" includePaths? standard.includePaths
  let context ← field? table "context" (fun v => (context? v).map some) standard.context
  let isolateMarkers ← field? table "isolate_line_markers" flag? standard.isolateMarkers
  let maxSubstitutions ←
    field? table "max_substitutions_per_line" (natBelow? 0x10000000000000000)
      standard.maxSubstitutions
  let known := ["include_paths".toList, "context".toList, "isolate_line_markers".toList,
    "max_substitutions_per_line".toList]
  if othersReadable known table then
    some { includePaths, context, isolateMarkers, maxSubstitutions }
  else none

/-- The configuration of a document. -/
def parse (document : Text) : Except Error Config :=
  match (Toml.Document.parse? document).bind ofToml? with
  | some config => .ok config
  | none => .error .configuration

end ShaderWeave.Config
