import Rbsrt.General.Runs
import Rbsrt.General.OrderedHash
import Rbsrt.General.Backtrack
import Rbsrt.Ruby
import Rbsrt.Libsrt
import Rbsrt.StreamID.Components
import Rbsrt.StreamID.Scan
import Rbsrt.StreamID.Merge
import Rbsrt.StreamID.RoundTrip
import Rbsrt.StreamID.Injection
import Rbsrt.StreamID.Recompile
import Rbsrt.Server.Loop
import Rbsrt.Server.Accounting
import Rbsrt.Server.Session
import Rbsrt.Server.Callbacks
import Rbsrt.Server.TailLoss
import Rbsrt.Server.EventArray
import Rbsrt.Socket.Transmission
import Rbsrt.Socket.Stream
import Rbsrt.Poll.Registry
import Rbsrt.Socket.Retry
import Rbsrt.Socket.StreamIDOption
import Rbsrt.StreamID.Commas
import Rbsrt.StreamID.Snapshot
import Rbsrt.General.Slots
import Rbsrt.StreamID.Order
import Rbsrt.StreamID.Routes
import Rbsrt.Poll.Wait
import Rbsrt.Server.Watching
import Rbsrt.Server.FailedAccept
import Rbsrt.General.Custody
import Rbsrt.Socket.Ownership
import Rbsrt.StreamID.Classify
import Rbsrt.StreamID.Emission
import Rbsrt.StreamID.Writers
import Rbsrt.General.CString
import Rbsrt.Socket.Passphrase
import Rbsrt.Socket.Bind
import Rbsrt.Stats
import Rbsrt.StreamID.Replay
import Rbsrt.StreamID.Choices
import Rbsrt.Server.Recording
import Rbsrt.Server.Service
import Rbsrt.Server.Abandoned
import Rbsrt.Poll.History
import Rbsrt.Socket.Announce
import Rbsrt.StreamID.Spellings
import Rbsrt.Socket.Options
import Rbsrt.Socket.Connect
import Rbsrt.General.Heap
import Rbsrt.Collector
import Rbsrt.StreamID.Settling
import Rbsrt.StreamID.Overlay
import Rbsrt.StreamID.LastWord
