import Maqistor.Lib.Table
import Maqistor.Lib.Runs
import Maqistor.Lib.Script
import Maqistor.Lib.Scatter
import Maqistor.Lib.Outcome
import Maqistor.Lib.WriterLoop
import Maqistor.Lib.WriterCalls
import Maqistor.Lib.WriterBatches
import Maqistor.Lib.Bytes
import Maqistor.Lib.Decimal
import Maqistor.Lib.Lists
import Maqistor.Lib.Broadcast
import Maqistor.Lib.Binary64
import Maqistor.Types
import Maqistor.Results.Conn
import Maqistor.Results.Complete
import Maqistor.Results.Dispatch
import Maqistor.Results.Commit
import Maqistor.Results.Recover
import Maqistor.Results.Writer
import Maqistor.Results.Fence
import Maqistor.Results.Once
import Maqistor.Results.Batching
import Maqistor.Results.Shape
import Maqistor.Results.Loop
import Maqistor.Results.Lanes
import Maqistor.Results.Hysteresis
import Maqistor.Adaptive.Batch
import Maqistor.Adaptive.Controller
import Maqistor.Adaptive.Options
import Maqistor.Adaptive.Limits
import Maqistor.Adaptive.Progress
import Maqistor.Adaptive.Writer
import Maqistor.Ingest.Conn
import Maqistor.Ingest.Enqueue
import Maqistor.Ingest.Sequential
import Maqistor.Ingest.Claim
import Maqistor.Ingest.Loop
import Maqistor.Store.Calls
import Maqistor.Store.System
import Maqistor.Store.Moves
import Maqistor.Store.Reads
import Maqistor.Store.Specs
import Maqistor.Store.Rows
import Maqistor.Store.Consistent
import Maqistor.Store.Steps
import Maqistor.Store.Effects
import Maqistor.Store.Agreement
import Maqistor.Store.Budget
import Maqistor.Store.Retries
import Maqistor.Store.Crash
import Maqistor.Store.Observers
import Maqistor.Store.Numbering
import Maqistor.Store.Durable
import Maqistor.Store.Lifecycle
import Maqistor.Store.Schema
import Maqistor.Store.Alone
import Maqistor.Store.Claiming
import Maqistor.Store.Fifo
import Maqistor.Store.ClaimLoop
import Maqistor.Store.WorkerResult
import Maqistor.Store.Recovery
import Maqistor.Store.Release
import Maqistor.Store.Cleanup
import Maqistor.Store.Retention
import Maqistor.Store.Vacuum
import Maqistor.Store.Loops
import Maqistor.Store.Migration
import Maqistor.Store.Handing
import Maqistor.Store.Recorded
import Maqistor.Protocol.Message
import Maqistor.Protocol.Cbor
import Maqistor.Protocol.Frame
import Maqistor.Protocol.Readers
import Maqistor.Protocol.Stream
import Maqistor.Protocol.Unique
import Maqistor.Protocol.Schema
import Maqistor.Config
import Maqistor.Docker
import Maqistor.Dispatcher.Registry
import Maqistor.Dispatcher.Selection
import Maqistor.Dispatcher.Server
import Maqistor.Dispatcher.Ownership
import Maqistor.Dispatcher.Ghosts
import Maqistor.Dispatcher.Capacity
import Maqistor.Dispatcher.Reservations
import Maqistor.Dispatcher.Delivery
import Maqistor.Dispatcher.InFlight
import Maqistor.Dispatcher.Effects
import Maqistor.Dispatcher.Dispatches
import Maqistor.Dispatcher.Drain
import Maqistor.Dispatcher.Announcing
import Maqistor.Dispatcher.Permits
import Maqistor.Dispatcher.Containers
import Maqistor.Dispatcher.Supervisor
import Maqistor.Engine.Scheduler
import Maqistor.Engine.Wakeups
import Maqistor.Engine.Idle
import Maqistor.Engine.Pass
import Maqistor.Engine.DrainPass
import Maqistor.Engine.Delivery
import Maqistor.Engine.PassCalls
import Maqistor.Engine.Ledger
import Maqistor.Engine.Listener
import Maqistor.Sdk.Session
import Maqistor.Sdk.Reading
import Maqistor.Sdk.Jobs
import Maqistor.Sdk.Handling
import Maqistor.Sdk.Progress
import Maqistor.EndToEnd.Link
import Maqistor.EndToEnd.Drain
import Maqistor.EndToEnd.Convergence
import Maqistor.EndToEnd.Fleet
import Maqistor.EndToEnd.Deployment
