import Conditionals.Comparison
import Conditionals.Disk.Extract
import Conditionals.Graph.Adjacency
import Conditionals.ReadOnly
import Conditionals.Stored.Decode
import Conditionals.Token.Cursor
import Conditionals.Proofs.Token.Classes
import Conditionals.Proofs.Token.Numeral
import Conditionals.Proofs.Token.Lexer
import Conditionals.Proofs.Token.Pieces
import Conditionals.Proofs.Condition.Grammar
import Conditionals.Proofs.Condition.Soundness
import Conditionals.Proofs.Condition.FirstOperand
import Conditionals.Proofs.Condition.Completeness
import Conditionals.Proofs.Condition.Recognition
import Conditionals.Proofs.Condition.Copies
import Conditionals.Proofs.Condition.Interning
import Conditionals.Proofs.Condition.Viable
import Conditionals.Proofs.Condition.Keys
import Conditionals.Proofs.Condition.Layout
import Conditionals.Proofs.Formula.Printing
import Conditionals.Proofs.Formula.Parentheses
import Conditionals.Proofs.Formula.Equality
import Conditionals.Proofs.Formula.Describing
import Conditionals.Proofs.Block.Forest
import Conditionals.Proofs.Block.Listing
import Conditionals.Proofs.Block.Walk
import Conditionals.Proofs.Block.Presence
import Conditionals.Proofs.Block.Renumbering
import Conditionals.Proofs.Comparison
import Conditionals.Proofs.Block.Equality
import Conditionals.Proofs.Directive
import Conditionals.Proofs.Text.Quoted
import Conditionals.Proofs.Text.Utf8
import Conditionals.Proofs.Text.LineEnds
import Conditionals.Proofs.Reader.Stripped
import Conditionals.Proofs.Reader.Steps
import Conditionals.Proofs.Reader.Presence
import Conditionals.Proofs.Reader.Structure
import Conditionals.Proofs.Reader.RoundTrip
import Conditionals.Proofs.Reader.Unmatched
import Conditionals.Proofs.Reader.Outcome
import Conditionals.Proofs.Reader.NamedMacro
import Conditionals.Proofs.Reader.Walk
import Conditionals.Proofs.Reader.Writing
import Conditionals.Proofs.Reader.Renumbering
import Conditionals.Proofs.Reader.Omission
import Conditionals.Proofs.Reader.Concatenation
import Conditionals.Proofs.Reader.Sharing
import Conditionals.Proofs.Reader.Failures
import Conditionals.Proofs.Reader.Reports
import Conditionals.Proofs.Graph.Evaluation
import Conditionals.Proofs.Graph.Tour
import Conditionals.Proofs.Stored.Equality
import Conditionals.Proofs.Stored.Reading
import Conditionals.Proofs.Stored.Recursion
import Conditionals.Proofs.Stored.Cleaning
import Conditionals.Proofs.Stored.Codec
import Conditionals.Proofs.Disk.Extract
