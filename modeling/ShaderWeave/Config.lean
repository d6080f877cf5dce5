/-
  The configuration of a preprocessor.  Every field has a default.
-/
import ShaderWeave.Path

namespace ShaderWeave

/-- The profile of a graphics context. -/
inductive Profile where
  | core
  | compatibility
  deriving DecidableEq, Repr

/-- The name of a profile. -/
def Profile.name : Profile → Text
  | .core => "core".toList
  | .compatibility => "compatibility".toList

/-- The version of a graphics context. -/
structure ContextVersion where
  major : Nat
  minor : Nat
  profile : Profile
  deriving DecidableEq, Repr

/-- The version directive of the shading language that goes with a context. -/
def ContextVersion.directive (c : ContextVersion) : Text :=
  "#version ".toList ++ Text.ofNat c.major ++ Text.ofNat c.minor ++ "0 ".toList ++ c.profile.name

/-- The settings of a preprocessor. -/
structure Config where
  /-- Directories searched, in order, for a quoted include that is not beside its file. -/
  includePaths : List Path := []
  /-- What the version of the context is replaced by. -/
  context : Option ContextVersion := none
  /-- Ends the statement before every line marker, for drivers that report errors too late. -/
  isolateMarkers : Bool := false
  /-- How many tokens of one line may be replaced. -/
  maxSubstitutions : Nat := 1024
  deriving DecidableEq, Repr

example : ContextVersion.directive ⟨4, 6, .core⟩ = "#version 460 core".toList := by decide

end ShaderWeave
