/-
  Paths, with `/` between components.

  A path keeps the spelling it was given, because that is what is shown; what it *names* is its list
  of components.  Two spellings with the same components are `same`, whatever repeated or trailing
  separators and inner `.` they have.

    * `components`  root, leading `.`, `..` and names, in order;
    * `join` a path relative to a directory; a rooted path stands for itself;
    * `parent?` without the last component;
    * `normalize` no `.`, no `..`: each `..` takes back a name, and nothing where there is none.
-/
import ShaderWeave.Text

namespace ShaderWeave

/-- A path as it was spelled. -/
structure Path where
  text : Text
  deriving DecidableEq, Repr

namespace Path

/-- One component of a path. -/
inductive Component where
  | root
  | here
  | up
  | name (n : Text)
  deriving DecidableEq, Repr

/-- The pieces between the separators. -/
def segments (t : Text) : List Text := t.splitOn '/'

/-- Whether the path starts at the root. -/
def isRooted (p : Path) : Bool := p.text.head? == some '/'

/-- A piece after the first, as a component; empty pieces and `.` are none. -/
def Component.ofSegment? (s : Text) : Option Component :=
  if s = [] ∨ s = ['.'] then none
  else if s = ['.', '.'] then some .up
  else some (.name s)

/-- The components of a path: a `.` counts only in front. -/
def components (p : Path) : List Component :=
  if p.isRooted then .root :: (segments p.text).filterMap Component.ofSegment?
  else match segments p.text with
    | ['.'] :: rest => .here :: rest.filterMap Component.ofSegment?
    | all => all.filterMap Component.ofSegment?

/-- Whether two spellings have the same components. -/
def same (p q : Path) : Bool := p.components == q.components

/-- Joins names with `/` between them. -/
def spell (names : List Text) : Text := List.intercalate ['/'] names

/-- The path of some names below the root, or of a relative one. -/
def ofNames (rooted : Bool) (names : List Text) : Path :=
  ⟨if rooted then '/' :: spell names else spell names⟩

/-- A component as it is spelled between separators. -/
def Component.spelling : Component → Text
  | .root => []
  | .here => ['.']
  | .up => ['.', '.']
  | .name n => n

/-- `p` seen from the directory `dir`; a rooted `p` is itself. -/
def join (dir p : Path) : Path :=
  if p.isRooted then p
  else if dir.text = [] ∨ dir.text.getLast? = some '/' then ⟨dir.text ++ p.text⟩
  else ⟨dir.text ++ '/' :: p.text⟩

/-- The path without its last component; the root and the empty path have no parent. -/
def parent? (p : Path) : Option Path :=
  match p.components.reverse with
  | [] => none
  | .root :: _ => none
  | _ :: before =>
    some (ofNames p.isRooted ((before.reverse.filter (· ≠ .root)).map Component.spelling))

/-- Walks a component from the names reached so far, innermost first. -/
def walk (reached : List Text) : Component → List Text
  | .name n => n :: reached
  | .up => reached.tail
  | .root => reached
  | .here => reached

/-- The names a path leads to, from the root or from where it starts, with nothing above that. -/
def names (p : Path) : List Text := (p.components.foldl walk []).reverse

/-- The path without `.` and `..`. -/
def normalize (p : Path) : Path := ofNames p.isRooted p.names

/-- The path seen from a working directory, in normal form. -/
def absolute (p cwd : Path) : Path := (cwd.join p).normalize

/-- Whether `p` lies strictly below the directory `dir`, component by component. -/
def isBelow (dir p : Path) : Bool :=
  dir.components.isPrefixOf p.components && dir.components.length < p.components.length

/-- The root directory. -/
def rootDir : Path := ⟨['/']⟩

theorem same_iff {p q : Path} : p.same q = true ↔ p.components = q.components := by
  simp [same]

theorem same_refl (p : Path) : p.same p = true := by simp [same]

theorem same_symm {p q : Path} (h : p.same q = true) : q.same p = true := by
  rw [same_iff] at h ⊢; exact h.symm

theorem same_trans {p q r : Path} (h : p.same q = true) (k : q.same r = true) :
    p.same r = true := by
  rw [same_iff] at h k ⊢; exact h.trans k

example : normalize ⟨"/a/b/../c/./d".toList⟩ = ⟨"/a/c/d".toList⟩ := by decide
example : normalize ⟨"../x//..".toList⟩ = ⟨[]⟩ ∧ normalize ⟨"/..".toList⟩ = rootDir := by decide
example :
    same ⟨"/lib/".toList⟩ ⟨"//lib/.".toList⟩ = true ∧
    same ⟨"./lib".toList⟩ ⟨"lib".toList⟩ = false := by
  decide

end Path
end ShaderWeave
