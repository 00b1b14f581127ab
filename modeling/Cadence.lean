import Cadence.Instant
import Cadence.Text.Blank
import Cadence.Text.Timestamp
import Cadence.Error
import Cadence.Zone.Basic
import Cadence.Zone.Text
import Cadence.Calendar.Order
import Cadence.Schedule.Shift
import Cadence.Schedule.Align
import Cadence.Schedule.CatchUp
import Cadence.Config.Configuration
import Cadence.Toml.Blank
import Cadence.Toml.Quoted
import Cadence.Toml.Scalar
import Cadence.Toml.Table
import Cadence.Toml.Document
import Cadence.Config.Folder
import Cadence.Store.Basic
import Cadence.Store.Hub
import Cadence.Alarm.Deadline
import Cadence.Timer.Basic
import Cadence.Timer.Life
import Cadence.Timer.Fire
import Cadence.Timer.Run
import Cadence.Proofs.Timer.Situation
import Cadence.Proofs.Timer.Linked
import Cadence.Proofs.Timer.Simulation
import Cadence.Proofs.Timer.Course
import Cadence.Proofs.Timer.Outcome
import Cadence.Proofs.Timer.Wakeup
import Cadence.Proofs.Timer.Firing
import Cadence.Proofs.Schedule.Jump
import Cadence.Proofs.Schedule.Grid
import Cadence.Proofs.Schedule.Walk
import Cadence.Proofs.Schedule.Occurrence
import Cadence.Proofs.Zone.Shown
import Cadence.Proofs.Zone.Text
import Cadence.Proofs.Schedule.WallClock
import Cadence.Proofs.Zone.Steady
import Cadence.Proofs.Zone.Resolve
import Cadence.Proofs.Schedule.Progress
import Cadence.Proofs.Schedule.Stretch
import Cadence.Proofs.Schedule.Boundary
import Cadence.Proofs.Schedule.Bracket
import Cadence.Proofs.Timer.Anchor
import Cadence.Proofs.Timer.Race
import Cadence.Proofs.Timer.Agreement
import Cadence.Proofs.Text.Timestamp
import Cadence.Proofs.Toml.Word
import Cadence.Proofs.Toml.Line
import Cadence.Proofs.Toml.Written
import Cadence.Proofs.Config.ReadBack
import Cadence.Proofs.Config.Survival
import Cadence.Proofs.Store.Operation
import Cadence.Proofs.Store.Leasing
import Cadence.Proofs.Store.Timeline
import Cadence.Proofs.Store.Announcement
import Cadence.Proofs.Store.Version
import Cadence.Proofs.Store.Order
import Cadence.Proofs.Store.Contents
import Cadence.Proofs.Store.Transfer
import Cadence.Proofs.Timer.Ownership
import Cadence.Proofs.Timer.Creation
import Cadence.Proofs.Timer.FailedCreation
import Cadence.Proofs.Timer.Account
import Cadence.Proofs.Timer.Afterlife
import Cadence.Proofs.Timer.Ties
import Cadence.Proofs.Timer.Disturbance
import Cadence.Proofs.Timer.Restraint
import Cadence.Proofs.Timer.Hearing
import Cadence.Proofs.Timer.Draining
import Cadence.Proofs.Alarm.Conformance
import Cadence.Proofs.Schedule.Reversal
import Cadence.Proofs.Schedule.Edge
import Cadence.Proofs.Zone.Conversion
import Cadence.Proofs.Schedule.Multiple
import Cadence.Proofs.Schedule.LastStep
import Cadence.Proofs.Zone.Grammar
import Cadence.Proofs.Store.InPlace
import Cadence.Proofs.Store.SingleWrites
