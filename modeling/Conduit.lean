import Conduit.Blocking.Queue
import Conduit.Blocking.Threads
import Conduit.CommandLine.Arguments
import Conduit.CommandLine.Output
import Conduit.CommandLine.Run
import Conduit.Linked.Threads
import Conduit.Log.Lifetime
import Conduit.Log.Outlet
import Conduit.Log.Session
import Conduit.Main
import Conduit.Pipeline.Channel
import Conduit.Pipeline.Options
import Conduit.Pipeline.Race
import Conduit.Pipeline.Relay
import Conduit.Pipeline.Run
import Conduit.Ring.Ends
import Conduit.Settings.Document
import Conduit.Settings.Load
import Conduit.Sink.Memory
import Conduit.Sink.Writer
import Conduit.Text.Time
import Conduit.Proofs.Blocking.Order
import Conduit.Proofs.Blocking.Parked
import Conduit.Proofs.Blocking.Shutdown
import Conduit.Proofs.Blocking.Turns
import Conduit.Proofs.Blocking.Wakeups
import Conduit.Proofs.Linked.Calls
import Conduit.Proofs.Linked.Order
import Conduit.Proofs.Linked.Pointers
import Conduit.Proofs.Linked.Rounds
import Conduit.Proofs.Lists
import Conduit.Proofs.Log.Accounts
import Conduit.Proofs.Log.Finality
import Conduit.Proofs.Log.Joining
import Conduit.Proofs.Log.Lifetimes
import Conduit.Proofs.Log.Order
import Conduit.Proofs.Log.Panics
import Conduit.Proofs.Log.Stopping
import Conduit.Proofs.Pipeline.Bounded
import Conduit.Proofs.Pipeline.Consumers
import Conduit.Proofs.Pipeline.Delivery
import Conduit.Proofs.Pipeline.Handover
import Conduit.Proofs.Pipeline.Joining
import Conduit.Proofs.Pipeline.Lines
import Conduit.Proofs.Pipeline.LockFree
import Conduit.Proofs.Pipeline.Numbering
import Conduit.Proofs.Pipeline.Producers
import Conduit.Proofs.Pipeline.Race
import Conduit.Proofs.Pipeline.Relay
import Conduit.Proofs.Pipeline.Stuck
import Conduit.Proofs.Pipeline.Traces
import Conduit.Proofs.Pipeline.Verdict
import Conduit.Proofs.Ring.Calls
import Conduit.Proofs.Ring.Contents
import Conduit.Proofs.Ring.Destroyed
import Conduit.Proofs.Ring.Observers
import Conduit.Proofs.Ring.Slots
import Conduit.Proofs.Settings.Entries
import Conduit.Proofs.Settings.Layers
import Conduit.Proofs.Settings.Overrides
import Conduit.Proofs.Settings.Precedence
import Conduit.Proofs.Sink.Writer
