/-
  TOML strings.

  A basic string stands in double quotes and has escapes, a literal string stands in single quotes
  and has none.  Either has a form with tripled quotes that may span lines: a line end right after
  the opening is dropped, up to two quotes may stand in front of the closing, and in a basic string
  a backslash at the end of a line takes the line end and all white space after it away.  A reader
  is given the text after the opening and returns the string with the text after its closing.
-/
import ShaderWeave.Toml.Scalar

namespace ShaderWeave.Toml.Quotation

/-- The single quote. -/
def apostrophe : Char := Char.ofNat 0x27

/-- A character that may stand in a string or a comment: a tab, or anything that is no ASCII
    control. -/
def isAllowed (c : Char) : Bool := c == '\t' || (0x20 ≤ c.toNat && c.toNat != 0x7F)

/-- A character of a string's text, or of its line ends where it may span lines; `rest` follows
    it. -/
def isContent (multi : Bool) (c : Char) (rest : Text) : Bool :=
  isAllowed c || (multi && (c == '\n' || (c == '\r' && rest.head? == some '\n')))

/-- The closing of a string: the quotes in front of it that still belong to the string, and what
    follows. -/
def closing? (multi : Bool) (quote : Char) (t : Text) : Option (Text × Text) :=
  let n := min (t.takeWhile (· == quote)).length 5
  if multi then
    if 3 ≤ n then some (List.replicate (n - 3) quote, t.drop n) else none
  else
    if 1 ≤ n then some ([], t.drop 1) else none

/-- Puts a character in front of a string that was read. -/
def emit (c : Char) (r : Option (Text × Text)) : Option (Text × Text) :=
  r.map fun (s, t) => (c :: s, t)

/-- Reads a literal string. -/
def literal (multi : Bool) : Text → Option (Text × Text)
  | [] => none
  | c :: rest =>
    match closing? multi apostrophe (c :: rest) with
    | some closed => some closed
    | none => if isContent multi c rest then emit c (literal multi rest) else none

/-- Where a reader stands in a basic string. -/
inductive Mode where
  /-- In its text. -/
  | text
  /-- After a backslash. -/
  | escape
  /-- Inside a code point, with so many digits to come. -/
  | digits (left value : Nat)
  /-- After a backslash and white space that must end the line. -/
  | lineEnd
  /-- After such a line end. -/
  | trim

/-- The character of a one-letter escape. -/
def simpleEscape? (c : Char) : Option Char :=
  match c with
  | 'b' => some '\x08'
  | 't' => some '\t'
  | 'n' => some '\n'
  | 'f' => some '\x0c'
  | 'r' => some '\r'
  | 'e' => some '\x1b'
  | '"' => some '"'
  | '\\' => some '\\'
  | _ => none

/-- The character of a code point; surrogates are none. -/
def codePoint? (n : Nat) : Option Char := if n.isValidChar then some (Char.ofNat n) else none

/-- Reads a basic string. -/
def basic (multi : Bool) : Mode → Text → Option (Text × Text)
  | _, [] => none
  | .text, c :: rest =>
    match closing? multi '"' (c :: rest) with
    | some closed => some closed
    | none =>
      if c = '\\' then basic multi .escape rest
      else if isContent multi c rest then emit c (basic multi .text rest)
      else none
  | .escape, c :: rest =>
    if c = 'x' then basic multi (.digits 2 0) rest
    else if c = 'u' then basic multi (.digits 4 0) rest
    else if c = 'U' then basic multi (.digits 8 0) rest
    else if multi ∧ (c = ' ' ∨ c = '\t') then basic multi .lineEnd rest
    else if multi ∧ c = '\n' then basic multi .trim rest
    else if multi ∧ c = '\r' ∧ rest.head? = some '\n' then basic multi .trim rest
    else match simpleEscape? c with
      | some d => emit d (basic multi .text rest)
      | none => none
  | .digits left value, c :: rest =>
    match Scalar.hexDigit? c with
    | none => none
    | some d =>
      if left ≤ 1 then
        match codePoint? (value * 16 + d) with
        | some e => emit e (basic multi .text rest)
        | none => none
      else basic multi (.digits (left - 1) (value * 16 + d)) rest
  | .lineEnd, c :: rest =>
    if c = ' ' ∨ c = '\t' then basic multi .lineEnd rest
    else if c = '\n' ∨ (c = '\r' ∧ rest.head? = some '\n') then basic multi .trim rest
    else none
  | .trim, c :: rest =>
    if c = ' ' ∨ c = '\t' ∨ c = '\n' ∨ (c = '\r' ∧ rest.head? = some '\n') then
      basic multi .trim rest
    else match closing? multi '"' (c :: rest) with
      | some closed => some closed
      | none =>
        if c = '\\' then basic multi .escape rest
        else if isContent multi c rest then emit c (basic multi .text rest)
        else none

/-- The text without a line end at its start. -/
def dropLineEnd : Text → Text
  | '\n' :: rest => rest
  | '\r' :: '\n' :: rest => rest
  | t => t

/-- Reads a string of one line, from its opening quote. -/
def line? : Text → Option (Text × Text)
  | c :: rest =>
    if c = '"' then basic false .text rest
    else if c = apostrophe then literal false rest
    else none
  | [] => none

/-- Reads a string, from its opening quote. -/
def parse? (t : Text) : Option (Text × Text) :=
  if ['"', '"', '"'].isPrefixOf t then basic true .text (dropLineEnd (t.drop 3))
  else if [apostrophe, apostrophe, apostrophe].isPrefixOf t then
    literal true (dropLineEnd (t.drop 3))
  else line? t

example : parse? "\"a\\x41\\\"\" x".toList = some ("aA\"".toList, " x".toList) := by decide
example :
    parse? "\"\"\"\none \\\n   two\"\"\"\"".toList = some ("one two\"".toList, []) := by decide

end ShaderWeave.Toml.Quotation
