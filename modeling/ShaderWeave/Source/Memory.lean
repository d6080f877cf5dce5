/-
  Files in memory.

  Files are stored under their absolute paths, seen from the root directory.  A store tests a
  spelling by its normal form: it is a file when that is stored, and a directory when a stored file
  lies below that.  A relative spelling stays relative in normal form, so no file is stored under
  it.  What is made of it decides between two sources over the same files: `source` sees relative
  spellings from the root directory, where paths start; `asSpelled` tests spellings as they are, and
  finds files by rooted ones only.
-/
import ShaderWeave.Entries
import ShaderWeave.Source

namespace ShaderWeave

/-- Stored files, by absolute path. -/
structure Memory where
  files : List (Path × Content) := []
  deriving DecidableEq, Repr

namespace Memory

/-- Stores a file; a later one of the same path replaces it. -/
def write (m : Memory) (path : Path) (content : Content) : Memory :=
  ⟨Entries.set (path.absolute Path.rootDir) content m.files⟩

/-- The files of a list, stored in order. -/
def ofList (files : List (Path × Content)) : Memory :=
  files.foldl (fun m f => m.write f.1 f.2) ⟨[]⟩

/-- Whether a file is stored under the normal form of a spelling. -/
def isFile (m : Memory) (path : Path) : Bool := (Entries.get? path.normalize m.files).isSome

/-- Whether a stored file lies below the normal form of a spelling. -/
def isDir (m : Memory) (path : Path) : Bool := m.files.any fun f => path.normalize.isBelow f.1

/-- Removes a file. -/
def remove (m : Memory) (path : Path) : Memory :=
  ⟨m.files.filter fun f => f.1 ≠ path.absolute Path.rootDir⟩

/-- The stored files as a source; relative spellings are seen from the root directory. -/
def source (m : Memory) : Source where
  files := m.files
  cwd := Path.rootDir
  isFile path := m.isFile (Path.rootDir.join path)
  isDir path := m.isDir (Path.rootDir.join path)

/-- The stored files as a source that tests spellings as they are. -/
def asSpelled (m : Memory) : Source := { m.source with isFile := m.isFile, isDir := m.isDir }

end Memory
end ShaderWeave
