/-
  Sessions: a preprocessor over files in memory, changed and run by commands.

  Each command has a reply; what watchers and callbacks were told meanwhile is in the registry's
  journal.  A command that fails replies with its error and the session goes on.
-/
import ShaderWeave.Preprocessor
import ShaderWeave.Source.Memory

namespace ShaderWeave

/-- Files in memory and the preprocessor that reads them. -/
structure Session where
  memory : Memory
  preprocessor : Preprocessor

/-- What can be asked of a session. -/
inductive Command where
  | process
  /-- Hands the flattened text to a compiler that answers with this log. -/
  | compile (log : Option Text)
  | setDictionary (d : Dictionary)
  | setFilename (path : Path)
  | addIncludePath (path : Path)
  | setConfig (config : Config)
  | attachWatcher (name : Text)
  | setCallback (tag : Text)
  /-- A file changed; everyone who watches it is told. -/
  | touch (path : Path)
  | replaceFiles (files : Memory)
  | write (path : Path) (content : Content)
  | remove (path : Path)

/-- What a session answers. -/
inductive Reply where
  | done
  | text (t : Text)
  | compiled (c : Preprocessor.Compiled)
  | count (n : Nat)
  | flag (b : Bool)
  | failed (e : Error)

namespace Session

/-- A session that starts with files, a root, a dictionary and a configuration. -/
def ofFiles (memory : Memory) (filename : Path) (dictionary : Dictionary) (config : Config) :
    Session :=
  ⟨memory, ⟨filename, dictionary, config, memory.source, {}⟩⟩

/-- The session with other files. -/
def withMemory (s : Session) (memory : Memory) : Session :=
  ⟨memory, { s.preprocessor with source := memory.source }⟩

/-- The session with another registry. -/
def withRegistry (s : Session) (registry : Registry) : Session :=
  { s with preprocessor := { s.preprocessor with registry } }

/-- The registry of the session. -/
def registry (s : Session) : Registry := s.preprocessor.registry

/-- Carries out a command. -/
def perform (s : Session) : Command → Session × Reply
  | .process =>
    match s.preprocessor.process with
    | (p, .ok pieces) => ({ s with preprocessor := p }, .text (Piece.renderAll pieces))
    | (p, .error e) => ({ s with preprocessor := p }, .failed e)
  | .compile log =>
    match s.preprocessor.compile fun source => ⟨source, log⟩ with
    | (p, .ok c) => ({ s with preprocessor := p }, .compiled c)
    | (p, .error e) => ({ s with preprocessor := p }, .failed e)
  | .setDictionary d => ({ s with preprocessor := s.preprocessor.setDictionary d }, .done)
  | .setFilename path => ({ s with preprocessor := s.preprocessor.setFilename path }, .done)
  | .addIncludePath path =>
    match s.preprocessor.addIncludePath path with
    | (p, .ok ()) => ({ s with preprocessor := p }, .done)
    | (p, .error e) => ({ s with preprocessor := p }, .failed e)
  | .setConfig config => ({ s with preprocessor := { s.preprocessor with config } }, .done)
  | .attachWatcher name => (s.withRegistry (s.registry.attach name), .done)
  | .setCallback tag => (s.withRegistry (s.registry.setCallback ⟨tag, none⟩), .done)
  | .touch path =>
    let (registry, n) := s.registry.touch path
    (s.withRegistry registry, .count n)
  | .replaceFiles files => (s.withMemory files, .done)
  | .write path content => (s.withMemory (s.memory.write path content), .done)
  | .remove path => (s.withMemory (s.memory.remove path), .flag (s.memory.source.isFile path))

end Session
end ShaderWeave
