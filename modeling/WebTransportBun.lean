import WebTransportBun.Facade.SendScheduler
import WebTransportBun.Native.WriteBridge
import WebTransportBun.Sink.RingWriter
import WebTransportBun.Sink.Task
import WebTransportBun.Wasm.HostEvent
import WebTransportBun.Wasm.RateOwners
import WebTransportBun.Native.PacerCeiling
import WebTransportBun.Native.PacerAccounting
import WebTransportBun.Native.QueueBudget
import WebTransportBun.Native.CapacityWait
import WebTransportBun.Native.LifecycleClose
import WebTransportBun.Native.PooledEndpoint
import WebTransportBun.Facade.WasmConnect
import WebTransportBun.Facade.WasmShutdown
import WebTransportBun.Wasm.Qpack.Awaited
import WebTransportBun.Wasm.Qpack.Sections
import WebTransportBun.Native.DatagramReflector
import WebTransportBun.Native.SessionCounters
import WebTransportBun.Native.ServerTls
import WebTransportBun.Sink.Progress
import WebTransportBun.Sink.DeframerTwins
import WebTransportBun.Sink.WasmLossless
import WebTransportBun.Wasm.ServerTls
import WebTransportBun.Wasm.WtError
import WebTransportBun.Wasm.Qpack.Integers
import WebTransportBun.Wasm.ControlStream
import WebTransportBun.Wasm.CloseCapsule
import WebTransportBun.Wasm.Qpack.KnownReceived
import WebTransportBun.Wasm.Endpoint.SessionLimit
import WebTransportBun.Wasm.HostTokens
import WebTransportBun.Facade.WriteAll
import WebTransportBun.Facade.HostAccounts
import WebTransportBun.Native.PacerReports
import WebTransportBun.Facade.DatagramBatch
