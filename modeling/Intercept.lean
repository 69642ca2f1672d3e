import Intercept.Tag.Set
import Intercept.Ledger.Plan
import Intercept.Ledger.Basic
import Intercept.Duration
import Intercept.Generation.Watch
import Intercept.Waiter.Roster
import Intercept.Broker.Recorded
import Intercept.Drain.Waiter
import Intercept.Harness.Setup
import Intercept.Harness.Completion
import Intercept.Harness.Consumer
import Intercept.Harness.Act
import Intercept.Harness.Session
import Intercept.Toml.Document
import Intercept.Broker.ConsumerTag
import Intercept.Settings.Document
import Intercept.Text.Blank
import Intercept.CommandLine.Command
import Intercept.CommandLine.Execute
import Intercept.Main
import Intercept.Proofs.Ledger.Due
import Intercept.Proofs.Ledger.Plan
import Intercept.Proofs.Ledger.Account
import Intercept.Proofs.Ledger.Channel
import Intercept.Proofs.Ledger.Bookkeeping
import Intercept.Proofs.Generation.Lifecycle
import Intercept.Proofs.Harness.Change
import Intercept.Proofs.Harness.Run
import Intercept.Proofs.Harness.Paired
import Intercept.Proofs.Harness.Pairing
import Intercept.Proofs.Broker.Account
import Intercept.Proofs.Harness.Books
import Intercept.Proofs.Harness.Lineup
import Intercept.Proofs.Harness.Live
import Intercept.Proofs.Harness.Upkeep
import Intercept.Proofs.Generation.Signals
import Intercept.Proofs.Waiter.Offers
import Intercept.Proofs.Waiter.Histories
import Intercept.Proofs.Harness.Moves
import Intercept.Proofs.Harness.Attended
import Intercept.Proofs.Harness.Deeds
import Intercept.Proofs.Harness.Handing
import Intercept.Proofs.Harness.Turns
import Intercept.Proofs.Harness.ExactlyOnce
import Intercept.Proofs.Harness.Tidy
import Intercept.Proofs.Harness.Passes
import Intercept.Proofs.Harness.Entries
import Intercept.Proofs.Harness.Reckoned
import Intercept.Proofs.Harness.History
import Intercept.Proofs.Harness.LateFailures
import Intercept.Proofs.Harness.Deliveries
import Intercept.Proofs.Harness.Succession
import Intercept.Proofs.Harness.Offering
import Intercept.Proofs.Harness.Notices
import Intercept.Proofs.Harness.Outcomes
import Intercept.Proofs.Broker.Log
import Intercept.Proofs.Generation.Frank
import Intercept.Proofs.Harness.Business
import Intercept.Proofs.Harness.Happenings
import Intercept.Proofs.Harness.Courses
import Intercept.Proofs.Harness.Matching
import Intercept.Proofs.Harness.Reports
import Intercept.Proofs.Harness.Clock
import Intercept.Proofs.Harness.Deadlines
import Intercept.Proofs.Harness.Unclaimed
import Intercept.Proofs.Harness.Unacked
import Intercept.Proofs.Harness.Faults
import Intercept.Proofs.Harness.Collapse
import Intercept.Proofs.Harness.Endings
import Intercept.Proofs.Broker.Calls
import Intercept.Proofs.Broker.Subscribers
import Intercept.Proofs.Broker.Conservation
import Intercept.Proofs.Broker.Callbacks
import Intercept.Proofs.Drain.Moves
import Intercept.Proofs.Drain.Cycles
import Intercept.Proofs.Drain.Waits
import Intercept.Proofs.Drain.Forgetting
import Intercept.Proofs.Drain.Outcomes
import Intercept.Proofs.Drain.Pace
import Intercept.Proofs.Harness.Openings
import Intercept.Proofs.Harness.Registrations
import Intercept.Proofs.Harness.Aftermath
import Intercept.Proofs.Generation.History
import Intercept.Proofs.Generation.Watchers
import Intercept.Proofs.Ledger.Trimming
import Intercept.Proofs.Ledger.Shortest
import Intercept.Proofs.Ledger.Memory
import Intercept.Proofs.Harness.Desk
import Intercept.Proofs.Harness.Permits
import Intercept.Proofs.Harness.Turnover
import Intercept.Proofs.Harness.Rest
import Intercept.Proofs.CommandLine.Scenes
import Intercept.Proofs.CommandLine.Positions
import Intercept.Proofs.CommandLine.Steps
import Intercept.Proofs.CommandLine.Interleavings
import Intercept.Proofs.CommandLine.Endings
import Intercept.Proofs.CommandLine.Finished
import Intercept.Proofs.Harness.Client
import Intercept.Proofs.Harness.Handback
import Intercept.Proofs.Drain.Latecomers
import Intercept.Proofs.Text.Digits
import Intercept.Proofs.Text.Quoted
import Intercept.Proofs.Report
import Intercept.Proofs.Toml.Numbers
import Intercept.Proofs.Toml.Assignments
import Intercept.Proofs.Settings.Documents
