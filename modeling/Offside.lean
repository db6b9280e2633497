import Offside.Emit.Bare
import Offside.Main
import Offside.Proofs.Emit.Visit
import Offside.Proofs.Expression.RoundTrip
import Offside.Proofs.Layout.Lone
import Offside.Proofs.Program.Concatenation
import Offside.Proofs.Program.Width
import Offside.Proofs.Token.Codeless
import Offside.Proofs.Token.Cut
import Offside.Workload.Basic
import Offside.Proofs.IR.Laying
import Offside.Proofs.IR.Graph
import Offside.Proofs.Emit.Keeping
import Offside.Proofs.Emit.Laying
import Offside.Proofs.Emit.Graph
import Offside.Proofs.Parser.Shape
import Offside.Proofs.Emit.Emission
import Offside.Proofs.Emit.Definition
import Offside.Proofs.Emit.Soundness
import Offside.Proofs.Emit.Frame
import Offside.Proofs.Program.Files
import Offside.Proofs.Program.Loading
import Offside.Proofs.Parser.Balance
import Offside.Proofs.Emit.Agreement
import Offside.Proofs.Emit.Probe
import Offside.Proofs.Emit.Sharing
import Offside.Proofs.Emit.Lookup
import Offside.Proofs.Emit.Scoping
import Offside.Proofs.Parser.Ending
import Offside.Proofs.Parser.Termination
import Offside.Proofs.Parser.Derivation
import Offside.Proofs.Program.Failures
import Offside.Proofs.Program.Literals
import Offside.Proofs.Parser.Junction
import Offside.Proofs.Parser.Tally
import Offside.Proofs.Token.Trailing
import Offside.Proofs.Program.Semicolons
import Offside.Proofs.Outline.Translation
import Offside.Proofs.Program.Signatures
import Offside.Proofs.Emit.Discipline
import Offside.Proofs.Number.Rounding
import Offside.Proofs.Number.Written
import Offside.Proofs.Text.Quoted
import Offside.Proofs.Outline.Unambiguous
import Offside.Proofs.Node.Tree
import Offside.Proofs.Program.Structure
import Offside.Proofs.Expression.Enclosed
import Offside.Proofs.Token.Passage
import Offside.Proofs.Token.Numerals
import Offside.Proofs.Expression.Grouping
import Offside.Proofs.Token.Occurrence
import Offside.Proofs.Program.LineNumbers
import Offside.Proofs.Parser.Framing
import Offside.Proofs.Program.Bodies
