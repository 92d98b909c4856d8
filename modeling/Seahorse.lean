import Seahorse.Scalar
import Seahorse.Scalar.Trig
import Seahorse.Decimal.Basic
import Seahorse.Decimal.Shortest
import Seahorse.Decimal.Fixed
import Seahorse.Json.Numeral
import Seahorse.Json.Basic
import Seahorse.Json.Reader
import Seahorse.Json.Writer
import Seahorse.Json.Record
import Seahorse.Text.CodeRange
import Seahorse.Text.Blank
import Seahorse.Text.Unassigned
import Seahorse.Text.ExtendingMark
import Seahorse.Text.Hidden
import Seahorse.Text.Case
import Seahorse.Text.Quoted
import Seahorse.Command
import Seahorse.Command.Parse
import Seahorse.Pose
import Seahorse.Area
import Seahorse.Target
import Seahorse.Objective
import Seahorse.Objective.Matcher
import Seahorse.Failure
import Seahorse.Level
import Seahorse.Level.Fault
import Seahorse.Level.Builtin
import Seahorse.Level.Load
import Seahorse.Journal
import Seahorse.Run
import Seahorse.Session
import Seahorse.Pacer
import Seahorse.Settings
import Seahorse.Unlocks
import Seahorse.Codec.Level
import Seahorse.Codec.Run
import Seahorse.Codec.Player
import Seahorse.Page.Storage
import Seahorse.Page.Player
import Seahorse.Page.Runner
import Seahorse.Page
import Seahorse.Page.Visit
import Seahorse.CommandLine
import Seahorse.Main
import Seahorse.Proofs.Course
import Seahorse.Proofs.History
import Seahorse.Proofs.Footing
import Seahorse.Proofs.Outcomes
import Seahorse.Proofs.Story
import Seahorse.Proofs.Endings
import Seahorse.Proofs.Waits
import Seahorse.Proofs.Replay
import Seahorse.Proofs.Requests
import Seahorse.Proofs.Writes
import Seahorse.Proofs.Pacing
import Seahorse.Proofs.Recognition
import Seahorse.Proofs.MatcherBounds
import Seahorse.Proofs.VainStarts
import Seahorse.Proofs.Capture
import Seahorse.Proofs.ProgramText
import Seahorse.Proofs.FiniteScalars
import Seahorse.Proofs.Binary.Rounding
import Seahorse.Proofs.Binary.Packing
import Seahorse.Proofs.Binary.Doubles
import Seahorse.Proofs.Json.Tokens
import Seahorse.Proofs.Json.Scaling
import Seahorse.Proofs.Decimal.Shortest
import Seahorse.Proofs.Decimal.NearMiss
import Seahorse.Proofs.Decimal.ReadBack
import Seahorse.Proofs.Json.Written
import Seahorse.Proofs.Json.Records
import Seahorse.Proofs.RoundTrip
import Seahorse.Proofs.UnlockRecord
import Seahorse.Proofs.StoredSettings
import Seahorse.Proofs.Reload
import Seahorse.Proofs.ScalarOrder
import Seahorse.Proofs.ScalarSums
import Seahorse.Proofs.Backlog
import Seahorse.Proofs.Transparency
import Seahorse.Proofs.Footprint
import Seahorse.Proofs.Visits
import Seahorse.Proofs.Headings
import Seahorse.Proofs.Halting
import Seahorse.Proofs.Visits
