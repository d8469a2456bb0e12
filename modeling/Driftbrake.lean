import Driftbrake.Lib.Prog
import Driftbrake.Lib.FileSystem
import Driftbrake.Lib.HandleLogic
import Driftbrake.Lib.System
import Driftbrake.Lib.Typestate
import Driftbrake.Lib.Crash
import Driftbrake.Lib.Failure
import Driftbrake.Lib.FrameCode
import Driftbrake.Lib.BigEndian
import Driftbrake.Lib.Crc
import Driftbrake.Lib.Windows
import Driftbrake.Lib.Path
import Driftbrake.Core.Types
import Driftbrake.Core.Arith
import Driftbrake.Core.Machine
import Driftbrake.Core.History
import Driftbrake.Reconcile.Policy
import Driftbrake.Reconcile.Verdicts
import Driftbrake.Reconcile.Spec
import Driftbrake.Reconcile.Retention
import Driftbrake.Reconcile.Views
import Driftbrake.Reconcile.Runs
import Driftbrake.Reconcile.Locality
import Driftbrake.Reconcile.Redundancy
import Driftbrake.Reconcile.Capital
import Driftbrake.Backtest.Sweep
import Driftbrake.Backtest.Batch
import Driftbrake.Backtest.Tightening
import Driftbrake.Backtest.Shortening
import Driftbrake.Backtest.Prevented
import Driftbrake.Backtest.Failures
import Driftbrake.Backtest.Agreement
import Driftbrake.Poller.Poller
import Driftbrake.Poller.Booking
import Driftbrake.Poller.Burn
import Driftbrake.Poller.Deadline
import Driftbrake.Poller.Order
import Driftbrake.Python.Details
import Driftbrake.Journal.Format
import Driftbrake.Journal.Journal
import Driftbrake.Journal.Replay
import Driftbrake.Journal.Handle
import Driftbrake.Journal.Recovery
import Driftbrake.Journal.Lifetime
import Driftbrake.Journal.Checksum
import Driftbrake.Journal.Faults
import Driftbrake.Journal.Compact
import Driftbrake.Journal.OnDisk
import Driftbrake.Journal.Startup
import Driftbrake.Journal.Restart
import Driftbrake.Journal.Ledger
import Driftbrake.Journal.Reasons
import Driftbrake.Journal.FailedCompact
import Driftbrake.Simulation.Backend
import Driftbrake.Simulation.Permits
import Driftbrake.Simulation.Budget
import Driftbrake.Journal.PowerCut
import Driftbrake.Lib.Interference
import Driftbrake.Lib.Footprint
import Driftbrake.Journal.LockProtocol
import Driftbrake.Journal.Locks
import Driftbrake.Journal.Refusals
import Driftbrake.Journal.Neighbours
import Driftbrake.Journal.Canonical
import Driftbrake.Lib.PrefixCode
import Driftbrake.Trading.Rlp
import Driftbrake.Trading.Transaction
import Driftbrake.Trading.Abi
import Driftbrake.Trading.Decoder
import Driftbrake.Lib.TraceLogic
import Driftbrake.Trading.Loop
import Driftbrake.Trading.Rounds
import Driftbrake.Trading.Session
import Driftbrake.Trading.Halting
import Driftbrake.Poller.Decoding
import Driftbrake.Trading.Drift
import Driftbrake.Lib.Weyl
import Driftbrake.Backtest.Synthetic
import Driftbrake.Backtest.Benchmark
import Driftbrake.Lib.Checked
import Driftbrake.Lib.Hex
import Driftbrake.Trading.Rpc
import Driftbrake.Trading.Node
import Driftbrake.Simulation.Progress
import Driftbrake.Trading.Fork
import Driftbrake.Trading.Startup
import Driftbrake.Trading.Frozen
