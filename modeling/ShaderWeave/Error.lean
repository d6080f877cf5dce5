/-
  What can go wrong, and how it is told.

  Errors are causes: each constructor holds what its message names, and `Error.message` is the only
  place where wording is chosen.  An error that belongs to a line says which (`Error.line?`).
-/
import ShaderWeave.Path
import ShaderWeave.Text.Quoted

namespace ShaderWeave

/-- A line of a file; line 0 of no file stands for the start of a pass. -/
structure Location where
  file : Text
  line : Nat
  deriving DecidableEq, Repr

/-- What is wrong with a line or with the way loops and files nest. -/
inductive Fault where
  | unclosedToken
  | tooManySubstitutions (limit : Nat)
  | includeWithoutPath
  | includeDelimiter
  | includeUnclosed (delimiter : Char)
  | loopKey
  | loopValue
  | loopIn
  | loopCollection
  | rangeDots (range : Text)
  | rangeBound (bound range : Text)
  | endWithoutLoop
  | endInOtherFile (file : Text) (header : Nat)
  | fileEndsInLoop
  | passEndsInLoop
  | passEndsInScope
  | scopeNotOpen
  deriving DecidableEq, Repr

/-- Why a name in braces, or the collection of a loop, has no text or no keys. -/
inductive NameFault where
  | unresolved
  | notDictionary (resolved : Text)
  | unsupported (resolved : Text)
  deriving DecidableEq, Repr

/-- Why a value of a document cannot be stored in a dictionary. -/
inductive StorageFault where
  | integerRange
  | vectorSize
  | vectorElement
  | datetime
  deriving DecidableEq, Repr

/-- The errors of the library. -/
inductive Error where
  /-- A file that exists could not be read. -/
  | unreadable (file : Path) (reason : Text)
  /-- No file answers to an include, or to the root (from no file, line 0). -/
  | includeNotFound (file : Path) (loc : Location)
  /-- A file includes itself, directly or through others. -/
  | includeCycle (file : Path) (loc : Location)
  | malformed (fault : Fault) (loc : Location)
  | substitution (name : Text) (fault : NameFault) (loc : Location)
  /-- The version of the context was asked for and is not configured. -/
  | missingContext (loc : Location)
  /-- A search directory that is none. -/
  | notDirectory (path : Path)
  | unstorable (key : Text) (fault : StorageFault)
  /-- A document that does not parse, or a configuration of the wrong shape. -/
  | configuration
  deriving DecidableEq, Repr

/-- The wording of a fault. -/
def Fault.message : Fault → Text
  | .unclosedToken => "could not parse line, missing '\x7d' after '#\x7b'".toList
  | .tooManySubstitutions limit =>
    "more than ".toList ++ Text.ofNat limit ++ " substitutions in a single line".toList
  | .includeWithoutPath => "expected file path after #include".toList
  | .includeDelimiter => "expected \" or < after #include".toList
  | .includeUnclosed delimiter =>
    "expected ".toList ++ delimiter :: " to close #include path".toList
  | .loopKey => "expected a key name before ',' in #for statement".toList
  | .loopValue => "expected a value name in #for statement".toList
  | .loopIn => "expected 'in' in #for statement".toList
  | .loopCollection => "expected a dictionary after 'in' in #for statement".toList
  | .rangeDots range => "expected '..' in range ".toList ++ range.quote
  | .rangeBound bound range =>
    "invalid range bound ".toList ++ bound.quote ++ " in ".toList ++ range.quote
  | .endWithoutLoop => "unexpected #endfor, no corresponding #for was found".toList
  | .endInOtherFile file header =>
    "unexpected #endfor, last #for was in ".toList ++ file ++ " (".toList ++ Text.ofNat header ++
    [')']
  | .fileEndsInLoop => "unexpected end of file, still processing #for loop".toList
  | .passEndsInLoop => "unexpected end of file in the middle of expanding #for statement".toList
  | .passEndsInScope => "unexpected end of file with open scopes".toList
  | .scopeNotOpen => "popped a scope with none open".toList

/-- The wording of a fault in a name. -/
def NameFault.message : NameFault → Text
  | .unresolved => "could not resolve variable".toList
  | .notDictionary resolved => resolved.quote ++ " is not a dictionary".toList
  | .unsupported resolved =>
    "resolved to ".toList ++ resolved.quote ++ " which is a type that is not supported".toList

/-- The wording of a fault in a stored value. -/
def StorageFault.message : StorageFault → Text
  | .integerRange => "integer does not fit in 32 bits".toList
  | .vectorSize => "only arrays of two or three numbers are vectors".toList
  | .vectorElement => "arrays must hold numbers".toList
  | .datetime => "datetimes are not supported".toList

/-- `"file" (line)`. -/
def Location.shown (loc : Location) : Text :=
  loc.file.quote ++ " (".toList ++ Text.ofNat loc.line ++ [')']

/-- The wording of an error. -/
def Error.message : Error → Text
  | .unreadable file reason =>
    "include provider error: \"".toList ++ reason.quote ++ "\" when trying to include ".toList ++
      file.text.quote
  | .includeNotFound file loc =>
    "could not resolve file path for include file ".toList ++ file.text.quote ++
      "; triggered in ".toList ++ loc.shown
  | .includeCycle file loc =>
    "file ".toList ++ file.text.quote ++ " is recursively included; triggered in ".toList ++
    loc.shown
  | .malformed fault loc => "parse error: ".toList ++ fault.message ++ ' ' :: loc.shown
  | .substitution name fault loc =>
    "substitution error for ".toList ++ name.quote ++ ": ".toList ++ fault.message ++ ' ' ::
    loc.shown
  | .missingContext loc =>
    "#version __CONTEXT__ requires a context version; triggered in ".toList ++ loc.shown
  | .notDirectory path =>
    "include path ".toList ++ path.text.quote ++ " is not an existing directory".toList
  | .unstorable key fault =>
    "cannot store ".toList ++ key.quote ++ " in a dictionary: ".toList ++ fault.message
  | .configuration => "invalid configuration".toList

/-- Where the error is, if it belongs to a line. -/
def Error.location? : Error → Option Location
  | .includeNotFound _ loc | .includeCycle _ loc | .malformed _ loc | .substitution _ _ loc
  | .missingContext loc => some loc
  | .unreadable .. | .notDirectory _ | .unstorable .. | .configuration => none

/-- The line the error belongs to, if any. -/
def Error.line? (e : Error) : Option Nat := e.location?.map Location.line

end ShaderWeave
