import Parley.Bus.Delivery
import Parley.Library.Talk
import Parley.Main
import Parley.Record.Kept
import Parley.Save.Archive
import Parley.Script.Document
import Parley.State.Adoption
import Parley.State.Document
import Parley.Talk.Document
import Parley.Proofs.State.Stage
import Parley.Proofs.Talk.Commit
import Parley.Proofs.Talk.Charge
import Parley.Proofs.Talk.OptionBody
import Parley.Proofs.Talk.Settlement
import Parley.Proofs.Talk.Transaction
import Parley.Proofs.Json.Strings
import Parley.Proofs.Json.Numbers
import Parley.Proofs.Json.RoundTrip
import Parley.Proofs.Files.Path
import Parley.Proofs.Files.Directory
import Parley.Proofs.Save.State
import Parley.Proofs.Save.SlotFiles
import Parley.Proofs.Save.Slots
import Parley.Proofs.Save.Reading
import Parley.Proofs.State.Scripted
import Parley.Proofs.State.Evaluation
import Parley.Proofs.State.Refinement
import Parley.Proofs.Script.Shape
import Parley.Proofs.Talk.Recovery
import Parley.Proofs.Talk.Wallet
import Parley.Proofs.Talk.Escape
import Parley.Proofs.Talk.Placeholder
import Parley.Proofs.Library.Lint
import Parley.Proofs.State.Soundness
import Parley.Proofs.Talk.Writers
import Parley.Proofs.Talk.Game
import Parley.Proofs.Script.Scanner
import Parley.Proofs.Script.Balance
import Parley.Proofs.Script.Lexical
import Parley.Proofs.Script.WellFormed
import Parley.Proofs.Script.Layout
import Parley.Proofs.Script.Writing
import Parley.Proofs.Script.Printing
import Parley.Proofs.Script.Positions
import Parley.Proofs.Script.Reports
import Parley.Proofs.Script.Concatenation
import Parley.Proofs.Script.Offsets
import Parley.Proofs.Script.Spans
import Parley.Proofs.Bus.Roster
import Parley.Proofs.Bus.Journal
import Parley.Proofs.Bus.Recall
import Parley.Proofs.Bus.Moments
import Parley.Proofs.Bus.WorkList
import Parley.Proofs.Bus.Turns
import Parley.Proofs.Bus.Lifetimes
import Parley.Proofs.Bus.Vacancies
import Parley.Proofs.Bus.Registry
import Parley.Proofs.Talk.Order
import Parley.Proofs.Talk.Receipts
import Parley.Proofs.Talk.Course
import Parley.Proofs.Talk.Isolation
import Parley.Proofs.Talk.Conservation
import Parley.Proofs.Talk.Protocol
import Parley.Proofs.Json.Canonical
import Parley.Proofs.Save.Tampering
import Parley.Proofs.Talk.Parts
import Parley.Proofs.Talk.Perspective
import Parley.Proofs.Talk.Bystander
import Parley.Proofs.Talk.Independence
import Parley.Proofs.Talk.Display
import Parley.Proofs.Talk.TurnAway
import Parley.Proofs.Talk.Once
import Parley.Proofs.Talk.Visits
import Parley.Proofs.Talk.Menu
import Parley.Proofs.Talk.Chain
import Parley.Proofs.Talk.Ending
import Parley.Proofs.Library.Reads
import Parley.Proofs.Talk.Assignment
import Parley.Proofs.Library.Writes
import Parley.Proofs.State.Logic
import Parley.Proofs.State.Comparison
import Parley.Proofs.State.Halfway
import Parley.Proofs.Json.Results
import Parley.Proofs.Save.Loading
import Parley.Proofs.Save.Failure
import Parley.Proofs.Json.Bounded
import Parley.Proofs.Text.Utf8
import Parley.Proofs.Files.Stem
import Parley.Proofs.Files.Names
import Parley.Proofs.Files.Pattern
import Parley.Proofs.Library.Loads
import Parley.Proofs.Library.History
import Parley.Proofs.Library.Cache
import Parley.Proofs.Library.Entries
import Parley.Proofs.Library.Verdict
import Parley.Proofs.Library.BadManifest
import Parley.Proofs.Library.Verification
import Parley.Proofs.Library.BrokenFiles
import Parley.Proofs.Library.Agreement
import Parley.Proofs.Library.TwoManifests
import Parley.Proofs.Talk.Substitution
import Parley.Proofs.Talk.Utterance
import Parley.Proofs.Talk.SpeakerName
import Parley.Proofs.Bus.Sweep
import Parley.Proofs.Bus.Order
import Parley.Proofs.State.Sharing
