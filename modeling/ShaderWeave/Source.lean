/-
  Sources of files.

  A source is a finite table of files under absolute paths in normal form, together with how a path
  *as it is spelled* is tested: a store in memory normalises a spelling first, a directory tree
  walks it step by step.  Testing and reading are two questions, and nothing here says that they
  agree: what passes the test may be missing from the table, and then it cannot be read.  A pass
  reads texts of the table only, and there are finitely many.
-/
import ShaderWeave.Path

namespace ShaderWeave

/-- The content of a file: its text, or why it cannot be read. -/
inductive Content where
  | text (t : Text)
  | unreadable (reason : Text)
  deriving DecidableEq, Repr

/-- Where files come from. -/
structure Source where
  /-- The files, under their absolute paths. -/
  files : List (Path × Content)
  /-- The directory that relative paths start from. -/
  cwd : Path
  /-- Whether a spelling names a file. -/
  isFile : Path → Bool
  /-- Whether a spelling names a directory. -/
  isDir : Path → Bool

namespace Source

/-- The identity of a spelling: absolute and in normal form. -/
def absolute (s : Source) (p : Path) : Path := p.absolute s.cwd

/-- What the table has under an absolute path. -/
def entry? (s : Source) (p : Path) : Option Content := (s.files.find? (·.1.same p)).map Prod.snd

/-- What reading an absolute path gives. -/
def read (s : Source) (p : Path) : Content := (s.entry? p).getD (.unreadable "not found".toList)

/-- The content of an absolute path that passes the test for files. -/
def find? (s : Source) (p : Path) : Option Content := if s.isFile p then some (s.read p) else none

/-- A text that is found is the text in the table. -/
theorem entry?_of_find?_eq_text {s : Source} {p : Path} {t : Text}
    (h : s.find? p = some (.text t)) : s.entry? p = some (.text t) := by
  unfold find? read at h
  split at h
  · cases he : s.entry? p with
    | none => rw [he] at h; cases h
    | some content => rw [he] at h; cases h; rfl
  · cases h

/-- So there is a file of this text in the table, under a spelling of the path. -/
theorem mem_of_find?_eq_text {s : Source} {p : Path} {t : Text} (h : s.find? p = some (.text t)) :
    ∃ f ∈ s.files, f.1.same p = true ∧ f.2 = .text t := by
  obtain ⟨f, hf, hcontent⟩ := Option.map_eq_some_iff.1 (entry?_of_find?_eq_text h)
  exact ⟨f, List.mem_of_find?_eq_some hf, by simpa using List.find?_some hf, hcontent⟩

/-- And the path is the path of a file of the table. -/
theorem listed_of_find?_eq_text {s : Source} {p : Path} {t : Text}
    (h : s.find? p = some (.text t)) : ∃ f ∈ s.files, f.1.same p = true := by
  obtain ⟨f, hf, hsame, _⟩ := mem_of_find?_eq_text h
  exact ⟨f, hf, hsame⟩

/-- The spellings a quoted include is looked for under, in order. -/
def candidates (searched : List Path) (including path : Path) : List Path :=
  let beside := match including.parent? with
    | some dir => dir.join path
    | none => path
  beside :: searched.map (·.join path) ++ [path]

/-- The absolute path of a quoted include. -/
def resolveQuoted? (s : Source) (searched : List Path) (including path : Path) : Option Path :=
  ((candidates searched including path).find? s.isFile).map s.absolute

/-- The absolute path of an include in angle brackets. -/
def resolveAngled? (s : Source) (path : Path) : Option Path :=
  let resolved := s.absolute path
  if s.isFile resolved then some resolved else none

end Source
end ShaderWeave
