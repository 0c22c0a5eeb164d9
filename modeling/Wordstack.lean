import Wordstack.Text.Pieces
import Wordstack.Text.Blank
import Wordstack.Text.DecimalDigit
import Wordstack.Text.Quoted
import Wordstack.Text.Utf8
import Wordstack.Text.Lines
import Wordstack.Numeral
import Wordstack.Action.Count
import Wordstack.Env.Stack
import Wordstack.Env.Storage
import Wordstack.Meaning
import Wordstack.Scan
import Wordstack.Evaluation
import Wordstack.Session.Request
import Wordstack.CommandLine
import Wordstack.Main
import Wordstack.Proofs.Balance
import Wordstack.Proofs.Execution
import Wordstack.Proofs.Scanning
import Wordstack.Proofs.Sequencing
import Wordstack.Proofs.Tree
import Wordstack.Proofs.Tree.Evaluation
import Wordstack.Proofs.Primitives
import Wordstack.Proofs.Invariants
import Wordstack.Proofs.Moments
import Wordstack.Proofs.Registers
import Wordstack.Proofs.Faults
import Wordstack.Proofs.Reachability
import Wordstack.Proofs.References
import Wordstack.Proofs.Contents
import Wordstack.Proofs.Ranges
import Wordstack.Proofs.Correspondence
import Wordstack.Proofs.Nesting
import Wordstack.Proofs.Frame
import Wordstack.Proofs.Escapes
import Wordstack.Proofs.Display
import Wordstack.Proofs.Containment
import Wordstack.Proofs.Growth
import Wordstack.Proofs.Tokens
import Wordstack.Proofs.Hygiene
import Wordstack.Proofs.FixedNames
import Wordstack.Proofs.Scripts
import Wordstack.Proofs.Arithmetic
import Wordstack.Proofs.Numerals
import Wordstack.Proofs.Expressions
import Wordstack.Proofs.Blocks
import Wordstack.Proofs.Losses
import Wordstack.Proofs.Inlining
import Wordstack.Proofs.Loops
import Wordstack.Proofs.Ranks
import Wordstack.Proofs.Arrays
import Wordstack.Proofs.Strings
import Wordstack.Proofs.Grammar
import Wordstack.Proofs.Conversations
import Wordstack.Proofs.Depths
import Wordstack.Proofs.Forms
import Wordstack.Proofs.Division
import Wordstack.Proofs.Quoting
import Wordstack.Proofs.Listings
