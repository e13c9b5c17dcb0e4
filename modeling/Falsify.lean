import Falsify.Run.Phases
import Falsify.Script.Reader
import Falsify.Settings.Overrides
import Falsify.Shrink.Passes
import Falsify.Store.Directory
import Falsify.Store.Memory
import Falsify.Store.Traced
import Falsify.Text.Json.Reader
import Falsify.Proofs.Encoding.Canonical
import Falsify.Proofs.Source.Simulation
import Falsify.Proofs.Strategy.Composition
import Falsify.Proofs.Property.Replay
import Falsify.Proofs.Shrink.Neighbours
import Falsify.Proofs.Shrink.Trials
import Falsify.Proofs.Shrink.Steps
import Falsify.Proofs.Shrink.LocalMinimum
import Falsify.Proofs.Text.Base64
import Falsify.Proofs.Encoding.Token
import Falsify.Proofs.Run.Case
import Falsify.Proofs.Run.Frame
import Falsify.Proofs.Run.Execute
import Falsify.Proofs.Run.Phases
import Falsify.Proofs.Run.Counterexample
import Falsify.Proofs.Run.Reproduction
import Falsify.Proofs.Store.Memory
import Falsify.Proofs.Run.Parts
import Falsify.Proofs.Run.Invariants
import Falsify.Proofs.Run.Reuse
import Falsify.Proofs.Run.Covering
import Falsify.Proofs.Run.Corpora
import Falsify.Proofs.Run.Recorded
import Falsify.Proofs.Shrink.Mirror
import Falsify.Proofs.Run.Pace
import Falsify.Proofs.Run.Twins
import Falsify.Proofs.Run.Independence
import Falsify.Proofs.Shrink.Course
import Falsify.Proofs.Store.Shelves
import Falsify.Proofs.Random.Alias
import Falsify.Proofs.Random.Checked
import Falsify.Proofs.Random.Weights
import Falsify.Proofs.Strategy.Conformance
import Falsify.Proofs.Source.Reading
import Falsify.Proofs.Strategy.Reach
import Falsify.Proofs.Run.Crash
import Falsify.Proofs.Run.Interrupt
import Falsify.Proofs.Run.Lockstep
import Falsify.Proofs.Run.Leftovers
import Falsify.Proofs.Run.Conservation
import Falsify.Proofs.Run.Delivery
import Falsify.Proofs.Run.Calls
import Falsify.Proofs.Run.Books
import Falsify.Proofs.Run.Generation
import Falsify.Proofs.Run.Passing
import Falsify.Proofs.Source.Slices
import Falsify.Proofs.Source.Decisions
import Falsify.Proofs.Strategy.ListBudget
import Falsify.Proofs.Strategy.ListDeletion
import Falsify.Proofs.Source.Zeros
import Falsify.Proofs.Strategy.Simplest
import Falsify.Proofs.Store.KeyText
import Falsify.Proofs.Store.Tree
import Falsify.Proofs.Store.Paths
import Falsify.Proofs.Store.Programs
import Falsify.Proofs.Store.Agreement
import Falsify.Proofs.Random.RangeCode
import Falsify.Proofs.Shrink.Rounds
import Falsify.Proofs.Shrink.Termination
import Falsify.Proofs.Shrink.IntegerMinimum
import Falsify.Proofs.Store.Places
import Falsify.Proofs.Store.Processes
import Falsify.Proofs.Store.Interference
import Falsify.Proofs.Store.Stakes
import Falsify.Proofs.Store.Sharing
import Falsify.Proofs.Run.Health
import Falsify.Proofs.Random.Rounding
import Falsify.Proofs.Random.Arithmetic
import Falsify.Proofs.Random.Slots
import Falsify.Proofs.Random.Shares
import Falsify.Proofs.Random.Balance
import Falsify.Proofs.Random.Weightless
import Falsify.Proofs.Random.FirstChoice
import Falsify.Proofs.Strategy.Frequencies
import Falsify.Proofs.Run.Events
import Falsify.Proofs.Store.Journal
import Falsify.Proofs.Store.Loading
import Falsify.Proofs.Store.Files
import Falsify.Proofs.Store.Cleaning
import Falsify.Proofs.Run.Coverage
import Falsify.Proofs.Strategy.LargerBudget
import Falsify.Proofs.Encoding.Damage
import Falsify.Proofs.Store.KeyReading
import Falsify.Proofs.Store.Identity
import Falsify.Proofs.Shrink.Boundary
import Falsify.Proofs.Text.ValueText
