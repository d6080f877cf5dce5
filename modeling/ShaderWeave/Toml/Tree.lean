/-
  TOML tables while a document is read.

  A table remembers how it came to be, because that decides who may still add to it: by its own
  header, on the way to another table, or on the way of a dotted key.  A header may name a table
  that so far was only passed on the way of headers; dotted keys may only pass tables that no header
  named; a key is set only in a table its own way made or its header named.  A key keeps the place
  where it first appeared, but a table that is named after it was passed moves to the end of the
  table it is in.
-/
import ShaderWeave.Entries
import ShaderWeave.Toml.Item

namespace ShaderWeave.Toml

/-- How a table came to be. -/
inductive Origin where
  /-- Named by a header, or the whole document. -/
  | header
  /-- Passed by a header on its way to another table. -/
  | passed
  /-- Passed by a dotted key. -/
  | dotted
  deriving DecidableEq

/-- A node of a document in progress. -/
inductive Node where
  | value (v : Item)
  | table (origin : Origin) (entries : List (Text × Node))
  /-- Tables that were each named by a header in double brackets, in order. -/
  | tables (elements : List (List (Text × Node)))

/-- The entries of a table in progress. -/
abbrev Fields := List (Text × Node)

namespace Node

/-- Changes the table at the end of a path, making the tables that are missing on the way.  The way
    is that of a dotted key or that of a header; of several tables under one name it goes through
    the last. -/
def update (dotted : Bool) (f : Origin → Fields → Option (Origin × Fields)) :
    List Text → Origin → Fields → Option (Origin × Fields)
  | [], origin, entries => f origin entries
  | key :: path, origin, entries => do
    let node ← match Entries.get? key entries with
      | none =>
        let (o, es) ← update dotted f path (if dotted then .dotted else .passed) []
        pure (Node.table o es)
      | some (.table o es) =>
        if dotted ∧ o = .header then none
        else
          let (o, es) ← update dotted f path o es
          pure (Node.table o es)
      | some (.tables elements) =>
        match elements.reverse with
        | [] => none
        | last :: before =>
          let (_, es) ← update dotted f path .header last
          pure (Node.tables (before.reverse ++ [es]))
      | some (.value _) => none
    return (origin, Entries.set key node entries)

/-- Sets the value of a dotted key, given by its way and its last part, in a table. -/
def assign (path : List Text) (key : Text) (v : Item) (origin : Origin) (entries : Fields) :
    Option (Origin × Fields) :=
  update true (fun o es =>
    if (o = .dotted) ↔ path ≠ [] then
      match Entries.get? key es with
      | some _ => none
      | none => some (o, es ++ [(key, .value v)])
    else none) path origin entries

/-- Names a table by a header; its place is the last. -/
def openTable (path : List Text) (key : Text) (root : Fields) : Option Fields :=
  (update false (fun o es =>
    match Entries.get? key es with
    | none => some (o, es ++ [(key, .table .header [])])
    | some (.table .passed sub) => some (o, Entries.erase key es ++ [(key, .table .header sub)])
    | some _ => none) path .header root).map Prod.snd

/-- Adds a table by a header in double brackets. -/
def appendTable (path : List Text) (key : Text) (root : Fields) : Option Fields :=
  (update false (fun o es =>
    match Entries.get? key es with
    | none => some (o, es ++ [(key, .tables [[]])])
    | some (.tables elements) => some (o, Entries.set key (.tables (elements ++ [[]])) es)
    | some _ => none) path .header root).map Prod.snd

mutual

/-- The item of a node that is complete. -/
def freeze : Node → Item
  | .value v => v
  | .table _ entries => .table (freezeEntries entries)
  | .tables elements => .array (freezeTables elements)

/-- The entries of a table that is complete. -/
def freezeEntries : List (Text × Node) → List (Text × Item)
  | [] => []
  | (key, node) :: rest => (key, node.freeze) :: freezeEntries rest

/-- Tables that are complete. -/
def freezeTables : List (List (Text × Node)) → List Item
  | [] => []
  | entries :: rest => .table (freezeEntries entries) :: freezeTables rest

end

end Node
end ShaderWeave.Toml
