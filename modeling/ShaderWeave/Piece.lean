/-
  Pieces of output.

  A pass writes pieces, each for one reason; the flattened text is their texts one after the other.
  Pieces that stand for a line of a file remember which, so that the line markers among them can be
  held to what they promise: the marker `#line n f` says that the output line after it is line `n +
  1` of file `f`.
-/
import ShaderWeave.Config
import ShaderWeave.Directive

namespace ShaderWeave

/-- A piece of output. -/
inductive Piece where
  /-- A line of file number `file`, with its indentation and its tokens replaced. -/
  | source (file line : Nat) (text : Text)
  /-- The version directive that a line asked for. -/
  | version (file line : Nat) (context : ContextVersion)
  /-- The platform's block. -/
  | platform
  /-- A line marker, after an empty statement where markers are isolated. -/
  | marker (isolated : Bool) (line file : Nat) (path : Path)
  /-- A loop starts with its first key. -/
  | loopStart (collection key : Text)
  /-- A loop goes on to another key. -/
  | loopKey (collection key : Text)
  /-- A loop over nothing starts. -/
  | loopEmpty
  /-- A loop ends. -/
  | loopEnd (collection : Text)
  deriving DecidableEq, Repr

namespace Piece

/-- The empty statement in front of an isolated marker. -/
def separator : Text := "; // preprocessor add semicolon to isolate error messages".toList

/-- The comment that names a key. -/
def keyComment (collection key : Text) : Text :=
  "//# Key ".toList ++ key ++ " in ".toList ++ collection ++ ['\n']

/-- The text of a piece. -/
def render : Piece → Text
  | .source _ _ text => text ++ ['\n']
  | .version _ _ context => context.directive ++ ['\n']
  | .platform => Directive.platformBlock Directive.platformName
  | .marker isolated line file path =>
    (if isolated then separator else []) ++ "\n#line ".toList ++ Text.ofNat line ++ ' ' ::
      Text.ofNat file ++ " // ".toList ++ path.text ++ ['\n']
  | .loopStart collection key =>
    "//# For loop over ".toList ++ collection ++ '\n' :: keyComment collection key
  | .loopKey collection key => keyComment collection key
  | .loopEmpty => "//# Empty for loop\n".toList
  | .loopEnd collection => "//# Terminated loop over ".toList ++ collection ++ ['\n']

/-- The text of pieces, one after the other. -/
def renderAll (pieces : List Piece) : Text := pieces.flatMap render

end Piece
end ShaderWeave
