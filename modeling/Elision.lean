import Elision.Cli.Command
import Elision.Main
import Elision.Proofs.FixedPoint
import Elision.Proofs.Adjacency
import Elision.Proofs.Appending
import Elision.Proofs.Failures
import Elision.Proofs.Resuming
import Elision.Proofs.Squeezing
import Elision.Proofs.Truncation
import Elision.Proofs.Opacity
import Elision.Proofs.Atomicity
import Elision.Proofs.Observation
import Elision.Proofs.Descent
import Elision.Proofs.Operands
import Elision.Proofs.Numerals
import Elision.Proofs.Patterns
import Elision.Proofs.Quotation
import Elision.Proofs.LastToken
import Elision.Proofs.Spread
import Elision.Proofs.Names
import Elision.Proofs.Growth
import Elision.Proofs.Leading
import Elision.Proofs.Events
import Elision.Proofs.Places
import Elision.Proofs.Tracked
import Elision.Proofs.Memories
