/-
  Compiler logs, with file numbers turned back into paths.

  Drivers name a place as `ERROR: file:line` or as `file(line)`, at the start of a line.  Both forms
  are replaced by `path(line)` where the number is registered, first all of the one form, then all
  of the other over the result.  A place is recognised with white space and decimal digits of any
  script; as a number only ASCII digits count.
-/
import ShaderWeave.Registry

namespace ShaderWeave.CompilerLog

/-- A place in a log: the digits of the file and of the line, and how many characters it takes. -/
structure Place where
  file : Text
  line : Text
  width : Nat
  deriving DecidableEq, Repr

/-- The digits at the start of a text and what follows; there must be a digit. -/
def digits? (t : Text) : Option (Text × Text) :=
  match t.takeWhile Text.isDigit with
  | [] => none
  | ds => some (ds, t.dropWhile Text.isDigit)

/-- `ERROR:`, white space, digits, a colon, digits. -/
def errorPlace? (t : Text) : Option Place := do
  let t ← List.isPrefixOf? "ERROR:".toList t
  let blanks := (t.takeWhile Text.isSpace).length
  let (file, t) ← digits? (t.dropWhile Text.isSpace)
  let t ← List.isPrefixOf? [':'] t
  let (line, _) ← digits? t
  return ⟨file, line, 6 + blanks + file.length + 1 + line.length⟩

/-- Digits, then digits in parentheses. -/
def callPlace? (t : Text) : Option Place := do
  let (file, t) ← digits? t
  let t ← List.isPrefixOf? ['('] t
  let (line, t) ← digits? t
  let _ ← List.isPrefixOf? [')'] t
  return ⟨file, line, file.length + 1 + line.length + 1⟩

/-- The registered path of a file's digits; numbers have at most 64 bits. -/
def pathOf? (registry : Registry) (digits : Text) : Option Path := do
  let n ← Text.nat? digits
  if n < 0x10000000000000000 then registry.pathOf? n else none

/-- What a place is replaced by: the path and the line, or itself where the file is not
    registered. -/
def replacement (registry : Registry) (t : Text) (p : Place) : Text :=
  match pathOf? registry p.file with
  | some path => path.text ++ '(' :: (p.line ++ [')'])
  | none => t.take p.width

/-- Goes through a log.  `start` says whether a line starts here; `skip` characters belong to a
    place that was replaced. -/
def replacePlaces (place? : Text → Option Place) (registry : Registry) : Bool → Nat → Text → Text
  | _, _, [] => []
  | _, skip + 1, _ :: t => replacePlaces place? registry false skip t
  | start, 0, c :: t =>
    match if start then place? (c :: t) else none with
    | none => c :: replacePlaces place? registry (c == '\n') 0 t
    | some p =>
      replacement registry (c :: t) p ++ replacePlaces place? registry false (p.width - 1) t

/-- The log with every registered place replaced by its path. -/
def remap (registry : Registry) (log : Text) : Text :=
  replacePlaces callPlace? registry true 0 (replacePlaces errorPlace? registry true 0 log)

example : remap { entries := [⟨⟨"/a".toList⟩, 0, true⟩] } "ERROR: 0:12: x\n0(3) y\n1(2)".toList =
    "/a(12): x\n/a(3) y\n1(2)".toList := by decide

end ShaderWeave.CompilerLog
