/-
  A directory tree with a working directory.

  A spelling is resolved as the system does it, one piece at a time and without normalising first:
  every piece but the last must lead to a directory, so that `missing/../file` and `file/` name
  nothing.  A spelling of more than `maxOctets` octets names nothing either.  Files are octets;
  their text is read as UTF-8.
-/
import ShaderWeave.Source
import ShaderWeave.Text.Utf8

namespace ShaderWeave

/-- The names of directories and files, each from the root down. -/
structure Tree where
  cwd : List Text
  directories : List (List Text)
  files : List (List Text × List Nat)

namespace Tree

/-- The directory of some names and those above it, the root first. -/
def lineage (names : List Text) : List (List Text) :=
  (List.range (names.length + 1)).map fun n => names.take n

/-- A tree with an empty working directory. -/
def ofWorkingDirectory (names : List Text) : Tree := ⟨names, lineage names, []⟩

/-- The names a path leads to from the working directory. -/
def locate (t : Tree) (path : Path) : List Text :=
  (path.absolute (Path.ofNames true t.cwd)).names

/-- Makes a directory and those above it. -/
def addDirectory (t : Tree) (path : Path) : Tree :=
  { t with directories := t.directories ++ lineage (t.locate path) }

/-- Writes a file and makes the directories above it. -/
def addFile (t : Tree) (path : Path) (octets : List Nat) : Tree :=
  let names := t.locate path
  { t with
    directories := t.directories ++ lineage names.dropLast
    files := t.files.filter (·.1 ≠ names) ++ [(names, octets)] }

/-- Whether names lead to a directory. -/
def hasDirectory (t : Tree) (names : List Text) : Bool := t.directories.contains names

/-- Whether names lead to a file. -/
def hasFile (t : Tree) (names : List Text) : Bool := t.files.any (·.1 == names)

/-- Follows pieces of a spelling from the names reached so far. -/
def follow (t : Tree) : List Text → List Text → Option (List Text)
  | reached, [] => if t.hasDirectory reached || t.hasFile reached then some reached else none
  | reached, piece :: rest =>
    if !t.hasDirectory reached then none
    else if piece = [] ∨ piece = ['.'] then
      if rest = [] then some reached else follow t reached rest
    else if piece = ['.', '.'] then follow t reached.dropLast rest
    else follow t (reached ++ [piece]) rest

/-- The length of the longest spelling, in octets of its UTF-8 form. -/
def maxOctets : Nat := 4095

/-- The number of octets of a text in UTF-8. -/
def octets (t : Text) : Nat := t.foldl (fun n c => n + c.utf8Size) 0

/-- The names a spelling leads to, if it leads anywhere. -/
def resolve? (t : Tree) (path : Path) : Option (List Text) :=
  if path.text = [] ∨ path.text.contains '\x00' ∨ maxOctets < octets path.text then none
  else if path.isRooted then t.follow [] (Path.segments path.text)
  else t.follow t.cwd (Path.segments path.text)

/-- The tree as a source. -/
def source (t : Tree) : Source where
  files := t.files.map fun f => (Path.ofNames true f.1, .text (Text.Utf8.decode f.2))
  cwd := Path.ofNames true t.cwd
  isFile p := (t.resolve? p).any t.hasFile
  isDir p := (t.resolve? p).any t.hasDirectory

end Tree
end ShaderWeave
