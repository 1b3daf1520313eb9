import Pipeworks.Text.Blank
import Pipeworks.Json.Reader
import Pipeworks.Json.Printer
import Pipeworks.Config.Graph
import Pipeworks.Config.Outline
import Pipeworks.Settings.Written
import Pipeworks.Settings.RunSettings
import Pipeworks.Lifecycle.Stage
import Pipeworks.Lifecycle.Progress
import Pipeworks.Component.Capability
import Pipeworks.Component.Options
import Pipeworks.Bus.Retry
import Pipeworks.Bus.Stream
import Pipeworks.Component.Registry
import Pipeworks.Run.Instantiate
import Pipeworks.Lifecycle.BringUp
import Pipeworks.Run.Chain
import Pipeworks.Bus.Exchange
import Pipeworks.Bus.Adapter
import Pipeworks.Run.Engine
import Pipeworks.Scripted.Component
import Pipeworks.Scripted.Subscriber
import Pipeworks.Config.Tagged
import Pipeworks.Scripted.Handles
import Pipeworks.Terminal.Builtin
import Pipeworks.Command.Style
import Pipeworks.Command.Path
import Pipeworks.Command.Execute
import Pipeworks.Scripted.Folder
import Pipeworks.Main
import Pipeworks.Proofs.Bus.History
import Pipeworks.Proofs.Bus.Ledger
import Pipeworks.Proofs.Bus.Itinerary
import Pipeworks.Proofs.Bus.Step
import Pipeworks.Proofs.Bus.Books
import Pipeworks.Proofs.Bus.Account
import Pipeworks.Proofs.Bus.Recipients
import Pipeworks.Proofs.Bus.Conservation
import Pipeworks.Proofs.Bus.Attempts
import Pipeworks.Proofs.Bus.Calls
import Pipeworks.Proofs.Bus.Staff
import Pipeworks.Proofs.Bus.Line
import Pipeworks.Proofs.Bus.Producers
import Pipeworks.Proofs.Bus.InFlight
import Pipeworks.Proofs.Bus.Shutdown
import Pipeworks.Proofs.Lifecycle.Turns
import Pipeworks.Proofs.Lifecycle.Safety
import Pipeworks.Proofs.Lifecycle.Settling
import Pipeworks.Proofs.Lifecycle.Schedule
import Pipeworks.Proofs.Lifecycle.Verdicts
import Pipeworks.Proofs.Lifecycle.Confluence
import Pipeworks.Proofs.Lifecycle.Display
import Pipeworks.Proofs.Config.Walking
import Pipeworks.Proofs.Config.Insertion
import Pipeworks.Proofs.Config.Tables
import Pipeworks.Proofs.Config.Order
import Pipeworks.Proofs.Config.Converse
import Pipeworks.Proofs.Config.Filling
import Pipeworks.Proofs.Config.InPlace
import Pipeworks.Proofs.Config.Grammar
import Pipeworks.Proofs.Config.Descent
import Pipeworks.Proofs.Config.Nesting
import Pipeworks.Proofs.Config.Acceptance
import Pipeworks.Proofs.Config.Writing
import Pipeworks.Proofs.Config.Lexing
import Pipeworks.Proofs.Config.RoundTrip
import Pipeworks.Proofs.Run.Closing
import Pipeworks.Proofs.Run.WaysOut
import Pipeworks.Proofs.Run.Tidiness
import Pipeworks.Proofs.Bus.Tape
import Pipeworks.Proofs.Bus.Traffic
import Pipeworks.Proofs.Run.Records
import Pipeworks.Proofs.Run.Registration
import Pipeworks.Proofs.Run.Stopping
import Pipeworks.Proofs.Bus.Panics
import Pipeworks.Proofs.Bus.Backpressure
import Pipeworks.Proofs.Bus.Deadlock
import Pipeworks.Proofs.Run.Consumers
import Pipeworks.Proofs.Results.Backing
import Pipeworks.Proofs.Results.Owing
import Pipeworks.Proofs.Results.Office
import Pipeworks.Proofs.Results.Going
import Pipeworks.Proofs.Results.Paying
import Pipeworks.Proofs.Results.Installation
import Pipeworks.Proofs.Results.Delivery
import Pipeworks.Proofs.Config.Resolution
import Pipeworks.Proofs.Run.Rendering
import Pipeworks.Proofs.Run.Rest
import Pipeworks.Proofs.Run.Journey
import Pipeworks.Proofs.Run.Interruption
import Pipeworks.Proofs.Config.WrittenOrder
import Pipeworks.Proofs.Config.Copying
import Pipeworks.Proofs.Config.Edits
import Pipeworks.Proofs.Config.Lexemes
import Pipeworks.Proofs.Config.LongestMatch
import Pipeworks.Config.LineCount
import Pipeworks.Proofs.Config.Layout
import Pipeworks.Proofs.Config.LineNumbers
import Pipeworks.Proofs.Bus.Clock
import Pipeworks.Proofs.Bus.Enrolment
import Pipeworks.Proofs.Bus.Publishing
import Pipeworks.Proofs.Bus.Rounds
import Pipeworks.Proofs.Bus.Timing
import Pipeworks.Proofs.Bus.Setbacks
import Pipeworks.Proofs.Bus.Expiry
import Pipeworks.Proofs.Bus.Draining
import Pipeworks.Proofs.Bus.FanOut
import Pipeworks.Proofs.Config.Spacing
import Pipeworks.Proofs.Bus.Letters
import Pipeworks.Proofs.Run.Making
import Pipeworks.Proofs.Run.Wiring
import Pipeworks.Proofs.Settings.Merging
import Pipeworks.Proofs.Text.Trimming
import Pipeworks.Proofs.Settings.Overrides
import Pipeworks.Proofs.Run.Passage
import Pipeworks.Proofs.Run.Tokens
import Pipeworks.Proofs.Run.Finishing
import Pipeworks.Proofs.Run.Folding
import Pipeworks.Proofs.Bus.Furnishing
import Pipeworks.Proofs.Run.Limits
import Pipeworks.Proofs.Lifecycle.Percentages
import Pipeworks.Proofs.Terminal.Echoing
import Pipeworks.Proofs.Terminal.Chunks
import Pipeworks.Proofs.Config.Refusal
import Pipeworks.Proofs.Config.Commas
