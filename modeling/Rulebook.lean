import Rulebook.Node.Check
import Rulebook.Node.Dump
import Rulebook.Node.Edit
import Rulebook.Node.Equality
import Rulebook.Node.Folding
import Rulebook.Program.Run
import Rulebook.Proofs.Evaluation.Course
import Rulebook.Proofs.Node.Preorder
import Rulebook.Settings.Toml
import Rulebook.Trace.Export
import Rulebook.Proofs.Evaluation.Nesting
import Rulebook.Proofs.Evaluation.Simulation
import Rulebook.Proofs.Evaluation.Folding
import Rulebook.Proofs.Node.Linked
import Rulebook.Proofs.Program.Yield
import Rulebook.Proofs.Number.Reflexive
import Rulebook.Proofs.Token.Lexeme
import Rulebook.Proofs.Token.Scan
import Rulebook.Proofs.Node.Same
import Rulebook.Proofs.Program.Abreast
import Rulebook.Proofs.Program.Together
import Rulebook.Proofs.Program.Recovery
import Rulebook.Proofs.Program.Boundary
import Rulebook.Proofs.Program.Below
import Rulebook.Proofs.Node.Check
import Rulebook.Proofs.Evaluation.Checked
import Rulebook.Proofs.Evaluation.Congruence
import Rulebook.Proofs.Evaluation.Ceiling
import Rulebook.Proofs.Evaluation.Recorded
import Rulebook.Proofs.Node.Marks
import Rulebook.Proofs.Evaluation.Tallies
import Rulebook.Proofs.Program.Sourced
import Rulebook.Proofs.Trace.Sliding
import Rulebook.Proofs.Program.Trivia
import Rulebook.Proofs.Program.Consumption
import Rulebook.Proofs.Program.Reading
import Rulebook.Proofs.Evaluation.Observation
import Rulebook.Proofs.Node.Unmarked
import Rulebook.Proofs.Evaluation.Recording
import Rulebook.Proofs.Evaluation.History
import Rulebook.Proofs.Trace.Links
import Rulebook.Proofs.Trace.Cursor
import Rulebook.Proofs.Explanation.WhyNot
import Rulebook.Proofs.Token.Tiling
import Rulebook.Proofs.Evaluation.Sites
import Rulebook.Proofs.Evaluation.Recursion
import Rulebook.Proofs.Node.Copied
import Rulebook.Proofs.Trace.Renamed
import Rulebook.Proofs.Explanation.Renamed
import Rulebook.Proofs.Evaluation.Related
import Rulebook.Proofs.Evaluation.Renamed
import Rulebook.Proofs.Evaluation.Reported
import Rulebook.Proofs.Node.Faithful
import Rulebook.Proofs.Node.RoundTrip
import Rulebook.Proofs.Token.Fused
import Rulebook.Proofs.Program.Golf
import Rulebook.Proofs.Evaluation.Unwinding
import Rulebook.Proofs.Program.Precedence
import Rulebook.Proofs.Evaluation.Machine
import Rulebook.Proofs.Token.Stream
import Rulebook.Proofs.Token.Quoted
import Rulebook.Proofs.Program.Places
import Rulebook.Proofs.Program.Limit
import Rulebook.Proofs.Evaluation.Invariant
import Rulebook.Proofs.Evaluation.Pairing
import Rulebook.Proofs.Evaluation.Transcript
import Rulebook.Proofs.Explanation.Blame
import Rulebook.Proofs.Explanation.Activations
import Rulebook.Proofs.Node.Around
import Rulebook.Proofs.Evaluation.Budget
import Rulebook.Proofs.Evaluation.Frequency
import Rulebook.Proofs.Explanation.Alternatives
import Rulebook.Proofs.Trace.Csv
import Rulebook.Proofs.Node.Normal
import Rulebook.Proofs.Evaluation.Stuck
import Rulebook.Proofs.Node.Grove
import Rulebook.Proofs.Node.Nested
import Rulebook.Proofs.Program.Composed
import Rulebook.Proofs.Node.Ownership
import Rulebook.Proofs.Node.Walk
import Rulebook.Proofs.Token.Lines
import Rulebook.Proofs.Program.Excerpt
import Rulebook.Proofs.Evaluation.ShortCircuit
import Rulebook.Proofs.Program.Facing
import Rulebook.Proofs.Program.Quantifier
import Rulebook.Proofs.Node.Equality
import Rulebook.Proofs.Token.Decimal
