import ShaderAssembly.Failure
import ShaderAssembly.Files.Tree
import ShaderAssembly.Main
import ShaderAssembly.ProgramReader.Trace
import ShaderAssembly.Proofs.WellFormed
import ShaderAssembly.Proofs.Parsing.Step
import ShaderAssembly.Proofs.Generation.Binding
import ShaderAssembly.Proofs.Generation.Declaration
import ShaderAssembly.Proofs.Generation.Instruction
import ShaderAssembly.Proofs.Generation.Hygiene
import ShaderAssembly.Proofs.Generation.Operations
import ShaderAssembly.Proofs.Generation.Program
import ShaderAssembly.Proofs.Generation.Scoping
import ShaderAssembly.Proofs.Meaning.Denotation
import ShaderAssembly.Proofs.Meaning.Instruction
import ShaderAssembly.Proofs.Meaning.PointSize
import ShaderAssembly.Proofs.Parsing.Reachable
import ShaderAssembly.Proofs.Comparison.Outcome
import ShaderAssembly.Proofs.Comparison.Limits
import ShaderAssembly.Proofs.Comparison.Layout
import ShaderAssembly.Proofs.Archive.Canonical
import ShaderAssembly.Proofs.Summary.Program
import ShaderAssembly.Proofs.Framing.Program
import ShaderAssembly.Proofs.Printing.Reader
import ShaderAssembly.Proofs.Resources.Coordinates
import ShaderAssembly.Proofs.Resources.Count
import ShaderAssembly.Proofs.Editing.Growth
import ShaderAssembly.Proofs.Naming.Mention
import ShaderAssembly.Proofs.Spelling.Program
import ShaderAssembly.Proofs.Initializer.Literal
import ShaderAssembly.Proofs.Lexing.Number
import ShaderAssembly.Proofs.Position
import ShaderAssembly.Proofs.Slots
import ShaderAssembly.Proofs.Signature
import ShaderAssembly.Proofs.Config.RoundTrip
