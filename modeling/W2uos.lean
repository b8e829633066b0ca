import W2uos.System.Machine
import W2uos.System.Interleaving
import W2uos.System.Window
import W2uos.System.Text
import W2uos.System.Tasks
import W2uos.System.Semaphore
import W2uos.System.Digits
import W2uos.System.Calendar
import W2uos.System.Json
import W2uos.System.Quantile
import W2uos.System.Curve
import W2uos.System.Buckets
import W2uos.System.Fanout
import W2uos.System.Rest
import W2uos.System.Tagged
import W2uos.System.Reader
import W2uos.System.Binary64
import W2uos.System.MachineInt
import W2uos.Amounts.Basic
import W2uos.Amounts.Posting
import W2uos.Data.Types
import W2uos.Data.History
import W2uos.Data.Markets
import W2uos.Data.Timestamps
import W2uos.Log.Types
import W2uos.Net.Client
import W2uos.Net.Shaper
import W2uos.Net.Targets
import W2uos.Net.Progress
import W2uos.Exec.Types
import W2uos.Exec.Okx
import W2uos.Exec.Service
import W2uos.Exec.Commands
import W2uos.Exec.Ledger
import W2uos.Exec.Separation
import W2uos.Exec.HotUpdate
import W2uos.Exec.Neutral
import W2uos.Exec.Blocking
import W2uos.Exec.Linear
import W2uos.Exec.Stream
import W2uos.Log.Trades
import W2uos.Log.Lost
import W2uos.Log.Latency
import W2uos.Log.Matching
import W2uos.Log.Percentiles
import W2uos.Log.Histogram
import W2uos.Log.Retention
import W2uos.Log.Sinks
import W2uos.Risk.Supervisor
import W2uos.Risk.Breaker
import W2uos.Risk.Bookings
import W2uos.Risk.Handles
import W2uos.Risk.OpenPositions
import W2uos.Risk.Exposure
import W2uos.Risk.Fills
import W2uos.Risk.Errors
import W2uos.Risk.Loss
import W2uos.Risk.Confluence
import W2uos.Bus.Local
import W2uos.Bus.Delivery
import W2uos.Bus.Dropped
import W2uos.Bus.Lock
import W2uos.Bus.Wiring
import W2uos.Bus.Jams
import W2uos.Bus.Draining
import W2uos.Risk.OnBus
import W2uos.Risk.Stall
import W2uos.Risk.Control
import W2uos.Strategy.Types
import W2uos.Exec.Holdings
import W2uos.Exec.Sides
import W2uos.Exec.Rejected
import W2uos.Strategy.Host
import W2uos.Strategy.Orders
import W2uos.Strategy.Decisions
import W2uos.Strategy.Sequential
import W2uos.Strategy.Lifecycle
import W2uos.Strategy.Subscriptions
import W2uos.Backtest.Engine
import W2uos.Backtest.Result
import W2uos.Backtest.Pnl
import W2uos.Backtest.Status
import W2uos.Backtest.Drawdown
import W2uos.Dashboard.Stream
import W2uos.Node.Config
import W2uos.Data.Feeds
import W2uos.Data.Instruments
import W2uos.Data.Frames
import W2uos.Data.Service
import W2uos.Strategy.Routing
import W2uos.Node.Reload
import W2uos.Backtest.Replay
import W2uos.Backtest.RoundTrip
import W2uos.Backtest.Recording
import W2uos.Backtest.Requests
import W2uos.Node.Live
import W2uos.Node.Apart
import W2uos.Node.Isolation
import W2uos.Api.Auth
import W2uos.Api.Positions
import W2uos.Api.Sessions
import W2uos.Kernel.Health
import W2uos.Node.Environment
import W2uos.Node.Redaction
import W2uos.Node.Watch
import W2uos.Node.Overlay
import W2uos.Node.Atomic
import W2uos.Node.Pipeline
import W2uos.Node.Whole
import W2uos.Node.Traffic
import W2uos.Node.Orders
import W2uos.Node.Books
import W2uos.Node.Connections
import W2uos.Cluster.Service
import W2uos.Cluster.Forward
import W2uos.Cluster.Stop
