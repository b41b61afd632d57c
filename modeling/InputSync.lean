import InputSync.Codec
import InputSync.Json
import InputSync.JsonCut
import InputSync.Serde
import InputSync.Trace
import InputSync.Service
import InputSync.Event
import InputSync.Config
import InputSync.Message
import InputSync.Bincode
import InputSync.Frame
import InputSync.Stream
import InputSync.FrameStream
import InputSync.Ipc
import InputSync.IpcLines
import InputSync.Edge
import InputSync.Crossing
import InputSync.Desktop
import InputSync.Session
import InputSync.Handshake
import InputSync.BoundedQueues
import InputSync.Forward
import InputSync.Motion
import InputSync.UserMotion
import InputSync.SessionTasks
import InputSync.ControlledPeer
import InputSync.EscapeHatch
import InputSync.InboundLoops
import InputSync.LocalInput
import InputSync.Clipboard
import InputSync.Backpressure
import InputSync.Heartbeat
import InputSync.ClipboardSettle
import InputSync.ClipboardPolicy
import InputSync.ClipboardNet
import InputSync.Splice
import InputSync.SafePath
import InputSync.Receiver
import InputSync.Resume
import InputSync.FailedCalls
import InputSync.VerifiedFiles
import InputSync.ChunkRace
import InputSync.ChunkClash
import InputSync.Ledger
import InputSync.Sender
import InputSync.LossyText
import InputSync.OfferPaths
import InputSync.Delivery
import InputSync.TransferOrder
import InputSync.TransferShared
import InputSync.Pinning
import InputSync.Identity
import InputSync.ConfigFile
import InputSync.Launcher
import InputSync.SavedConfig
import InputSync.Capture
import InputSync.Inject
import InputSync.InjectAgree
import InputSync.LinuxPointer
import InputSync.KeyRouting
import InputSync.ModifierKeys
import InputSync.CarriedModifiers
import InputSync.Relay
import InputSync.Supervisor
import InputSync.LastCommand
import InputSync.CommandOrder
import InputSync.PeerLoop
import InputSync.Teardown
import InputSync.Connection
import InputSync.ConnectionRuns
import InputSync.StuckModifiers
import InputSync.HeldKeys
import InputSync.RemoteInput
import InputSync.ServerPeers
import InputSync.WindowsCapture
import InputSync.ServerDaemon
import InputSync.ServerRelease
import InputSync.ServerRestart
import InputSync.ServerLifecycle
import InputSync.IpcServer
