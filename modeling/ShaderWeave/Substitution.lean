/-
  Substitution of `#{name}` tokens.

  A name is resolved in three steps: the part before its first dot is replaced by what a loop bound
  it to; a name without dots may so become a quoted key, which stands for its text; anything else is
  a dotted path into the dictionaries, those made for ranges before the user's own.

  A line is expanded from the right: the *last* `#{` is matched with the next closing brace, the
  token is replaced, and the whole line is looked at again, so that a value may bring further
  tokens.  Each replacement uses up one unit of the line's allowance, which is the recursion's
  argument.
-/
import ShaderWeave.Aliases
import ShaderWeave.Dictionary.Literal
import ShaderWeave.Error

namespace ShaderWeave

/-- What names mean: the open loops' aliases, the ranges' dictionaries, the user's dictionary. -/
structure Environment where
  aliases : AliasTable
  ranges : Dictionary
  dictionary : Dictionary

namespace Environment

/-- The value a path leads to; ranges come first. -/
def value? (env : Environment) (path : Text) : Option Value :=
  (env.ranges.value? path).or (env.dictionary.value? path)

/-- The dictionary a path leads to. -/
def dictionary? (env : Environment) (path : Text) : Option Dictionary :=
  match env.value? path with
  | some (.dictionary entries) => some ⟨entries⟩
  | _ => none

/-- A text between double quotes. -/
def isLiteral (t : Text) : Bool :=
  2 ≤ t.length && t.head? == some '"' && t.getLast? == some '"'

/-- What a name stands for after aliases: a quoted key, or a path that leads to a value. -/
def resolve? (env : Environment) (name : Text) : Option Text :=
  let resolved := env.aliases.resolve name
  if (!name.contains '.' && isLiteral resolved) || (env.value? resolved).isSome then some resolved
  else none

/-- The text a name is replaced by. -/
def expand (env : Environment) (name : Text) : Except NameFault Text :=
  match env.resolve? name with
  | none => .error .unresolved
  | some resolved =>
    if isLiteral resolved then .ok resolved.tail.dropLast
    else match (env.value? resolved).bind Value.literal? with
      | some text => .ok text
      | none => .error (.unsupported resolved)

end Environment

namespace Substitution

/-- The text before and after the last `#{`. -/
def cutLastOpening : Text → Option (Text × Text)
  | [] => none
  | '#' :: '{' :: rest =>
    match cutLastOpening rest with
    | some (l, r) => some ('#' :: '{' :: l, r)
    | none => some ([], rest)
  | c :: rest => (cutLastOpening rest).map fun (l, r) => (c :: l, r)

/-- The last token of a line: what stands before it, its name, what stands after it. -/
inductive LastToken where
  | absent
  | unclosed
  | found (before name after : Text)

/-- Finds the last opening of a line and the brace that closes it. -/
def lastToken (line : Text) : LastToken :=
  match cutLastOpening line with
  | none => .absent
  | some (before, rest) =>
    match rest.cut '}' with
    | none => .unclosed
    | some (name, after) => .found before name after

/-- Replaces tokens until none is left; `limit` is the line's whole allowance and the number what is
    left. -/
def expandWithin (env : Environment) (limit : Nat) (loc : Location) : Nat → Text → Except Error Text
  | left, line =>
    match lastToken line with
    | .absent => .ok line
    | .unclosed => .error (.malformed .unclosedToken loc)
    | .found before name after =>
      match left with
      | 0 => .error (.malformed (.tooManySubstitutions limit) loc)
      | left + 1 =>
        match env.expand name with
        | .error fault => .error (.substitution name fault loc)
        | .ok text => expandWithin env limit loc left (before ++ text ++ after)

/-- A line with all its tokens replaced. -/
def expandLine (env : Environment) (limit : Nat) (loc : Location) (line : Text) :
    Except Error Text :=
  expandWithin env limit loc limit line

end Substitution
end ShaderWeave
