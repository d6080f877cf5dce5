/-
  Reading TOML documents.

  A document is a sequence of lines, each with at most one expression: a key with its value, the
  header of a table, or that of one of several tables.  Arrays and inline tables may span lines,
  hold comments and end with a comma, and nest at most `maxDepth` deep.

  Readers take the text that is left and return what is left after them; `none` is a malformed
  document.  The first argument of the recursive ones bounds the number of calls; each call reads at
  least one character, so the length of the text is enough (`parse?`).
-/
import ShaderWeave.Toml.Quotation
import ShaderWeave.Toml.Tree

namespace ShaderWeave.Toml.Document

/-- How deep arrays and inline tables may nest. -/
def maxDepth : Nat := 80

/-! ## White space and line ends

  Blanks may stand between any two pieces of an expression; line ends and comments stand behind an
  expression, and inside it only where an array or an inline table is open.  A carriage return is a
  line end only together with the line feed behind it. -/

/-- A space or a tab. -/
def isBlank (c : Char) : Bool := c == ' ' || c == '\t'

/-- The text without blanks in front. -/
def skipBlanks (t : Text) : Text := t.dropWhile isBlank

/-- The text without blanks, line ends and comments in front; `comment` says that it starts inside
    one. -/
def skipTrivia? (comment : Bool) : Text → Option Text
  | [] => some []
  | c :: rest =>
    if c = '\n' then skipTrivia? false rest
    else if c = '\r' then if rest.head? = some '\n' then skipTrivia? false rest else none
    else if comment then if Quotation.isAllowed c then skipTrivia? true rest else none
    else if isBlank c then skipTrivia? false rest
    else if c = '#' then skipTrivia? true rest
    else some (c :: rest)

/-- The text after the end of a line, on which only a comment may be left. -/
def lineEnd? (t : Text) : Option Text :=
  match skipBlanks t with
  | [] => some []
  | '\n' :: rest => some rest
  | '\r' :: '\n' :: rest => some rest
  | '#' :: rest =>
    if (rest.takeWhile fun c => c != '\n' && c != '\r').all Quotation.isAllowed then
      match rest.dropWhile fun c => c != '\n' && c != '\r' with
      | [] => some []
      | '\n' :: rest => some rest
      | '\r' :: '\n' :: rest => some rest
      | _ => none
    else none
  | _ => none

/-! ## Keys

  A key is bare or quoted, or several of these with dots between them, which lead through tables. -/

/-- A character of a bare key. -/
def isBareKey (c : Char) : Bool := c.isAlphanum || c == '_' || c == '-'

/-- One part of a key. -/
def keyPart? (t : Text) : Option (Text × Text) :=
  match t.takeWhile isBareKey with
  | [] => Quotation.line? t
  | part => some (part, t.dropWhile isBareKey)

/-- A key with its dots: the parts before the last, the last, and the text after it and its
    blanks. -/
def key? : Nat → Text → Option (List Text × Text × Text)
  | 0, _ => none
  | fuel + 1, t => do
    let (part, t) ← keyPart? (skipBlanks t)
    match skipBlanks t with
    | '.' :: t =>
      let (path, last, t) ← key? fuel t
      if maxDepth ≤ path.length + 1 then none else return (part :: path, last, t)
    | t => return ([], part, t)

/-! ## Values

  Strings, arrays and inline tables are told by their first character; all else is a scalar, whose
  text is taken first and understood afterwards. -/

/-- A character that ends a word of a scalar. -/
def endsWord (c : Char) : Bool := " \t\r\n,[]\x7b\x7d#=".toList.contains c

/-- Whether a text starts with another word of a scalar, and not with a string or a point. -/
def startsWord : Text → Bool
  | [] => false
  | c :: _ => !endsWord c && c != '"' && c != Quotation.apostrophe && c != '.'

/-- The text of a scalar and what follows it.  A scalar is a word, or words with blanks between
    them: so a date may be followed by a time. -/
def scalarText : Text → Text × Text
  | [] => ([], [])
  | c :: rest =>
    if if isBlank c then startsWord (skipBlanks rest) else !endsWord c then
      let (t, rest) := scalarText rest
      (c :: t, rest)
    else ([], c :: rest)

/-- A scalar. -/
def scalar? (t : Text) : Option (Item × Text) :=
  let (t, rest) := scalarText t
  (Scalar.parse? t).map fun v => (v, rest)

mutual

/-- A value; `depth` says how many arrays and inline tables it may still open. -/
def value? : Nat → Nat → Text → Option (Item × Text)
  | 0, _, _ => none
  | fuel + 1, depth, t =>
    match t with
    | [] => none
    | c :: rest =>
      if c = '"' ∨ c = Quotation.apostrophe then
        (Quotation.parse? t).map fun (s, t) => (.string s, t)
      else if c = '[' then
        match depth with
        | 0 => none
        | depth + 1 => (items? fuel depth rest).map fun (items, t) => (.array items, t)
      else if c = '{' then
        match depth with
        | 0 => none
        | depth + 1 =>
          (fields? fuel depth [] rest).map fun (entries, t) =>
          (.table (Node.freezeEntries entries), t)
      else scalar? t

/-- The items of an array up to its closing bracket, where an item or the bracket may come. -/
def items? : Nat → Nat → Text → Option (List Item × Text)
  | 0, _, _ => none
  | fuel + 1, depth, t => do
    match ← skipTrivia? false t with
    | ']' :: t => return ([], t)
    | t =>
      let (item, t) ← value? fuel depth t
      match ← skipTrivia? false t with
      | ',' :: t =>
        let (items, t) ← items? fuel depth t
        return (item :: items, t)
      | ']' :: t => return ([item], t)
      | _ => none

/-- The fields of an inline table up to its closing brace, added to those before. -/
def fields? : Nat → Nat → Fields → Text → Option (Fields × Text)
  | 0, _, _, _ => none
  | fuel + 1, depth, entries, t => do
    match ← skipTrivia? false t with
    | '}' :: t => return (entries, t)
    | t =>
      let (path, key, t) ← key? t.length t
      let t ← skipTrivia? false t
      let t ← Scalar.expect? '=' t
      let t ← skipTrivia? false t
      let (v, t) ← value? fuel depth t
      let (_, entries) ← Node.assign path key v .header entries
      match ← skipTrivia? false t with
      | ',' :: t => fields? fuel depth entries t
      | '}' :: t => return (entries, t)
      | _ => none

end

/-! ## Documents

  A header says where the keys below it are set.  What may be defined twice and what may not is
  decided by the tree that they are put into. -/

/-- The tables read so far, and the way to the one that keys are set in. -/
structure State where
  root : Fields
  current : List Text

/-- The header of a table, after its first bracket. -/
def header? (s : State) (t : Text) : Option (State × Text) := do
  match t with
  | '[' :: t =>
    let (path, key, t) ← key? t.length t
    let t ← Scalar.expect? ']' t
    let t ← Scalar.expect? ']' t
    return (⟨← Node.appendTable path key s.root, path ++ [key]⟩, t)
  | t =>
    let (path, key, t) ← key? t.length t
    let t ← Scalar.expect? ']' t
    return (⟨← Node.openTable path key s.root, path ++ [key]⟩, t)

/-- A key with its value. -/
def assignment? (s : State) (t : Text) : Option (State × Text) := do
  let (path, key, t) ← key? t.length t
  let t ← Scalar.expect? '=' t
  let (v, t) ← value? t.length maxDepth (skipBlanks t)
  let (_, root) ← Node.update false (Node.assign path key v) s.current .header s.root
  return ({ s with root }, t)

/-- The lines of a document. -/
def lines? : Nat → State → Text → Option State
  | _, s, [] => some s
  | 0, _, _ => none
  | fuel + 1, s, t => do
    match skipBlanks t with
    | [] => return s
    | '[' :: t =>
      let (s, t) ← header? s t
      lines? fuel s (← lineEnd? t)
    | '\n' :: t => lines? fuel s t
    | '\r' :: t => lines? fuel s (← lineEnd? ('\r' :: t))
    | '#' :: t => lines? fuel s (← lineEnd? ('#' :: t))
    | t =>
      let (s, t) ← assignment? s t
      lines? fuel s (← lineEnd? t)

/-- The text without a byte order mark in front. -/
def skipMark : Text → Text
  | c :: rest => if c.toNat = 0xFEFF then rest else c :: rest
  | [] => []

/-- The table of a document, or `none` where it is malformed. -/
def parse? (t : Text) : Option (List (Text × Item)) :=
  (lines? (t.length + 1) ⟨[], []⟩ (skipMark t)).map fun s => Node.freezeEntries s.root

end ShaderWeave.Toml.Document
