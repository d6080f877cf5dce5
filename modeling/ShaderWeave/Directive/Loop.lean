/-
  Headers of loops: `#for key, value in dictionary` and `#for value in min..max`.

  A header is `#for` and white space.  With a comma, the word before it names the key; the words
  after it (all words, without a comma) are the name of the value, `in`, and the collection, and
  whatever follows is ignored.
-/
import ShaderWeave.Error

namespace ShaderWeave

/-- The parts of a loop's header. -/
structure LoopHeader where
  /-- The name of the key; none for a loop over a range. -/
  key : Option Text
  value : Text
  collection : Text
  deriving DecidableEq, Repr

namespace LoopHeader

/-- Whether a line opens a loop. -/
def isHeader (line : Text) : Bool :=
  match List.isPrefixOf? "#for".toList line with
  | some (c :: _) => Text.isSpace c
  | _ => false

/-- Whether a line closes a loop. -/
def isEnd (line : Text) : Bool := "#endfor".toList.isPrefixOf line

/-- Reads `value in collection`. -/
def parseTail (key : Option Text) (tail : Text) : Except Fault LoopHeader :=
  match tail.words with
  | [] => .error .loopValue
  | [_] => .error .loopIn
  | value :: word :: rest =>
    if word ≠ "in".toList then .error .loopIn
    else match rest with
      | [] => .error .loopCollection
      | collection :: _ => .ok ⟨key, value, collection⟩

/-- Reads what follows `#for`. -/
def parse (rest : Text) : Except Fault LoopHeader :=
  match rest.cut ',' with
  | none => parseTail none rest
  | some (key, tail) =>
    match key.words with
    | [key] => parseTail (some key) tail
    | _ => .error .loopKey

/-- Reads a line: none where it opens no loop. -/
def read (line : Text) : Except Fault (Option LoopHeader) :=
  if isHeader line then (parse (line.drop 4)).map some else .ok none

example : parse "  name , light in lights".toList =
    .ok ⟨some "name".toList, "light".toList, "lights".toList⟩ := rfl
example : isHeader "#format".toList = false ∧ isHeader "#for x".toList = true := by decide

end LoopHeader
end ShaderWeave
