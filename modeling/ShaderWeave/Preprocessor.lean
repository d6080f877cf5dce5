/-
  Preprocessors: a root file, a dictionary, a configuration, a source of files and a registry that
  is kept from pass to pass.

  Replacing the dictionary or the root file runs the change callback, but only where the new one
  differs from the old; equal ones are not replaced.
-/
import ShaderWeave.CompilerLog
import ShaderWeave.Pass.Run

namespace ShaderWeave

/-- A preprocessor. -/
structure Preprocessor where
  filename : Path
  dictionary : Dictionary
  config : Config
  source : Source
  registry : Registry

namespace Preprocessor

/-- The pass over the root file. -/
def job (p : Preprocessor) : Job := ⟨p.source, p.config, p.dictionary, p.source.absolute p.filename⟩

/-- Runs a pass: the pieces of the flattened text, or an error.  Either way the registry keeps the
    files that were entered. -/
def process (p : Preprocessor) : Preprocessor × Except Error (List Piece) :=
  let o := Pass.process p.job p.registry
  ({ p with registry := o.registry }, o.result)

/-- The output of a compiler: what it made, and its log. -/
structure Compiled where
  artifact : Text
  log : Option Text
  deriving DecidableEq, Repr

/-- Runs a pass and hands the text to a compiler, whose log then names paths. -/
def compile (p : Preprocessor) (compiler : Text → Compiled) :
    Preprocessor × Except Error Compiled :=
  let (p, result) := p.process
  (p, result.map fun pieces =>
    let made := compiler (Piece.renderAll pieces)
    { made with log := made.log.map (CompilerLog.remap p.registry) })

/-- Replaces the dictionary and runs the callback, if the dictionary differs. -/
def setDictionary (p : Preprocessor) (d : Dictionary) : Preprocessor :=
  if p.dictionary.equal d then p else { p with dictionary := d, registry := p.registry.notify }

/-- Replaces the root file and runs the callback, if the file differs. -/
def setFilename (p : Preprocessor) (path : Path) : Preprocessor :=
  if p.filename.same path then p else { p with filename := path, registry := p.registry.notify }

/-- Appends a search directory for quoted includes, unless it is already there. -/
def addIncludePath (p : Preprocessor) (dir : Path) : Preprocessor × Except Error Unit :=
  if dir.text.isEmpty || !p.source.isDir dir then (p, .error (.notDirectory dir))
  else if p.config.includePaths.any (·.same dir) then (p, .ok ())
  else ({ p with config := { p.config with includePaths := p.config.includePaths ++ [dir] } },
    .ok ())

end Preprocessor
end ShaderWeave
