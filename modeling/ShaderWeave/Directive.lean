/-
  Directives: what a line asks for once its tokens are replaced.

    * `#version __CONTEXT__` the version directive of the configured context;
    * `#define __OS__` a block that defines the platform's name;
    * `#include "p"`, `<p>` the text of another file;
    * `#for …` the start of a loop;
    * any other line stands for itself.
-/
import ShaderWeave.Directive.Loop

namespace ShaderWeave

/-- How the path of an include is searched. -/
inductive IncludeForm where
  /-- `"path"`: beside the including file, then in the search directories, then as it is. -/
  | quoted
  /-- `<path>`: as it is. -/
  | angled
  deriving DecidableEq, Repr

/-- An include directive. -/
structure Inclusion where
  form : IncludeForm
  path : Path
  /-- Whether the file is to be watched for changes. -/
  track : Bool
  deriving DecidableEq, Repr

/-- What a line asks for. -/
inductive Directive where
  | version
  | platform
  | inclusion (i : Inclusion)
  | loop (header : LoopHeader)
  | plain
  deriving DecidableEq, Repr

namespace Inclusion

/-- Reads the path up to its closing delimiter; `:notrack` after it asks not to watch the file. -/
def parsePath (form : IncludeForm) (delimiter : Char) (rest : Text) : Except Fault Inclusion :=
  match rest.cut delimiter with
  | none => .error (.includeUnclosed delimiter)
  | some (path, after) => .ok ⟨form, ⟨path⟩, !Text.occurs ":notrack".toList after⟩

/-- Reads what follows `#include`. -/
def parse (rest : Text) : Except Fault Inclusion :=
  match rest.dropWhile Text.isSpace with
  | [] => .error .includeWithoutPath
  | '"' :: rest => parsePath .quoted '"' rest
  | '<' :: rest => parsePath .angled '>' rest
  | _ => .error .includeDelimiter

end Inclusion

namespace Directive

/-- Reads a line. -/
def parse (line : Text) : Except Fault Directive :=
  if "#version __CONTEXT__".toList.isPrefixOf line then .ok .version
  else if "#define __OS__".toList.isPrefixOf line then .ok .platform
  else match List.isPrefixOf? "#include".toList line with
    | some rest => (Inclusion.parse rest).map .inclusion
    | none => (LoopHeader.read line).map fun header? => header?.elim .plain .loop

/-- The name of the platform. -/
def platformName : Text := "linux".toList

/-- The block a platform directive is replaced by. -/
def platformBlock (name : Text) : Text :=
  "#ifndef __OS__\n#define __OS__ ".toList ++ name ++ "\n#define ".toList ++ name ++
  "\n#endif\n".toList

end Directive
end ShaderWeave
