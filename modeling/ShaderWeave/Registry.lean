/-
  The registry: a stable number for every file that took part.

  Numbers are positions; entries are never removed or moved, so that a number once written into a
  line marker keeps its meaning over all later passes.  An index leads from paths back to numbers;
  that it says of every path what the entries say is an invariant of all histories, shown elsewhere,
  and not something that the two fields have by themselves.

  An entry is *tracked* once anyone asked for it, and a tracked file is handed to the watcher.  The
  registry also holds the one callback that changes are told to, and a journal of everything that
  watchers and callbacks were told.
-/
import ShaderWeave.Entries
import ShaderWeave.Path

namespace ShaderWeave

/-- A registered file. -/
structure FileEntry where
  path : Path
  id : Nat
  tracked : Bool
  deriving DecidableEq, Repr

/-- The entry, tracked. -/
def FileEntry.track (e : FileEntry) : FileEntry := { e with tracked := true }

/-- What was told to a watcher or to a callback. -/
inductive Event where
  | watch (watcher : Text) (path : Path)
  | call (tag : Text)
  deriving DecidableEq, Repr

/-- A change callback, known by its tag.  With a successor it replaces itself when it runs. -/
structure Callback where
  tag : Text
  successor : Option Text := none
  deriving DecidableEq, Repr

/-- Files in the order of their numbers, the numbers of paths, who watches the files, who is told,
    and what was told. -/
structure Registry where
  entries : List FileEntry := []
  /-- The number of each path.  Its key are the components, by which paths are compared. -/
  index : List (List Path.Component × Nat) := []
  watcher : Option Text := none
  callback : Option Callback := none
  /-- The newest event first. -/
  journal : List Event := []
  deriving DecidableEq, Repr

namespace Registry

/-- The number of a path. -/
def idOf? (r : Registry) (path : Path) : Option Nat := Entries.get? path.components r.index

/-- The path of a number. -/
def pathOf? (r : Registry) (id : Nat) : Option Path := r.entries[id]?.map (·.path)

/-- Hands a path to the watcher, if there is one. -/
def watch (r : Registry) (path : Path) : Registry :=
  match r.watcher with
  | some watcher => { r with journal := .watch watcher path :: r.journal }
  | none => r

/-- The registry with the entry of number `id` tracked. -/
def setTracked (r : Registry) (id : Nat) : Registry :=
  { r with entries := r.entries.modify id .track }

/-- Puts a file behind the others, under the next number. -/
def append (r : Registry) (path : Path) (track : Bool) : Registry :=
  { r with
    entries := r.entries ++ [⟨path, r.entries.length, track⟩]
    index := Entries.set path.components r.entries.length r.index }

/-- The number of a path, given on first sight.  Tracking is added and never taken back. -/
def register (r : Registry) (path : Path) (track : Bool) : Registry × Nat :=
  match r.idOf? path with
  | some id =>
    -- What has a number has an entry, and the entry says whether the file is tracked.
    let tracked := r.entries[id]?.all (·.tracked)
    (if track && !tracked then (r.setTracked id).watch path else r, id)
  | none =>
    let appended := r.append path track
    (if track then appended.watch path else appended, r.entries.length)

/-- Attaches a watcher; it is handed every tracked file at once. -/
def attach (r : Registry) (watcher : Text) : Registry :=
  let told := (r.entries.filter (·.tracked)).map fun e => Event.watch watcher e.path
  { r with watcher := some watcher, journal := told.reverse ++ r.journal }

/-- Sets the change callback. -/
def setCallback (r : Registry) (callback : Callback) : Registry :=
  { r with callback := some callback }

/-- Runs the change callback, if there is one. -/
def notify (r : Registry) : Registry :=
  match r.callback with
  | none => r
  | some c =>
    { r with
      journal := .call c.tag :: r.journal
      callback := some (c.successor.elim c fun tag => ⟨tag, none⟩) }

/-- The times a path was handed to any watcher. -/
def watchCount (r : Registry) (path : Path) : Nat :=
  r.journal.countP fun
    | .watch _ p => p.same path
    | .call _ => false

/-- A path changed: each watch on it runs the callback. -/
def touch (r : Registry) (path : Path) : Registry × Nat :=
  let n := r.watchCount path
  (n.repeat notify r, n)

/-- One line `number: path` for every file. -/
def identifiers (r : Registry) : Text :=
  r.entries.flatMap fun e => Text.ofNat e.id ++ ": ".toList ++ e.path.text ++ ['\n']

/-- The events of `later` that are not in `r`, oldest first. -/
def eventsSince (r later : Registry) : List Event :=
  (later.journal.take (later.journal.length - r.journal.length)).reverse

/-- How the slot that holds the callback shows itself. -/
def slotName : Text := "ChangeHook".toList

end Registry
end ShaderWeave
