import ShaderWeave.Aliases
import ShaderWeave.CompilerLog
import ShaderWeave.Config
import ShaderWeave.Config.OfToml
import ShaderWeave.Dictionary
import ShaderWeave.Dictionary.Literal
import ShaderWeave.Dictionary.OfToml
import ShaderWeave.Directive
import ShaderWeave.Directive.Loop
import ShaderWeave.Directive.Range
import ShaderWeave.Double
import ShaderWeave.Double.Decimal
import ShaderWeave.Double.Literal
import ShaderWeave.Double.Shortest
import ShaderWeave.Entries
import ShaderWeave.Error
import ShaderWeave.Pass
import ShaderWeave.Pass.Run
import ShaderWeave.Pass.Termination
import ShaderWeave.Path
import ShaderWeave.Piece
import ShaderWeave.Preprocessor
import ShaderWeave.Proofs.Aliases
import ShaderWeave.Proofs.AnyOrder
import ShaderWeave.Proofs.Body
import ShaderWeave.Proofs.Canonical
import ShaderWeave.Proofs.Drift
import ShaderWeave.Proofs.Entering
import ShaderWeave.Proofs.ErrorPlaces
import ShaderWeave.Proofs.Expansion
import ShaderWeave.Proofs.FirstLines
import ShaderWeave.Proofs.HeaderGrammar
import ShaderWeave.Proofs.Hiding
import ShaderWeave.Proofs.History
import ShaderWeave.Proofs.Identity
import ShaderWeave.Proofs.IncludeLookup
import ShaderWeave.Proofs.Inlining
import ShaderWeave.Proofs.KeyOrder
import ShaderWeave.Proofs.LogPlaces
import ShaderWeave.Proofs.Lookup
import ShaderWeave.Proofs.LoopNames
import ShaderWeave.Proofs.LoopRuns
import ShaderWeave.Proofs.Markers
import ShaderWeave.Proofs.NormalForm
import ShaderWeave.Proofs.Numbering
import ShaderWeave.Proofs.OneLine
import ShaderWeave.Proofs.Positions
import ShaderWeave.Proofs.Provenance
import ShaderWeave.Proofs.RangeLoops
import ShaderWeave.Proofs.Replacing
import ShaderWeave.Proofs.Replay
import ShaderWeave.Proofs.Runs
import ShaderWeave.Proofs.Scopes
import ShaderWeave.Proofs.Shadowing
import ShaderWeave.Proofs.Skipping
import ShaderWeave.Proofs.Sources
import ShaderWeave.Proofs.Splicing
import ShaderWeave.Proofs.Storage
import ShaderWeave.Proofs.Transition
import ShaderWeave.Proofs.Unrolling
import ShaderWeave.Proofs.Visits
import ShaderWeave.Proofs.Watching
import ShaderWeave.Registry
import ShaderWeave.Session
import ShaderWeave.Source
import ShaderWeave.Source.Memory
import ShaderWeave.Source.Tree
import ShaderWeave.Substitution
import ShaderWeave.Text
import ShaderWeave.Text.Digit
import ShaderWeave.Text.Printable
import ShaderWeave.Text.Quoted
import ShaderWeave.Text.Space
import ShaderWeave.Text.Utf8
import ShaderWeave.Toml
import ShaderWeave.Toml.Document
import ShaderWeave.Toml.Item
import ShaderWeave.Toml.Quotation
import ShaderWeave.Toml.Reading
import ShaderWeave.Toml.Scalar
import ShaderWeave.Toml.Tree
