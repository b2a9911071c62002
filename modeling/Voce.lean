import Voce.Engine.RedisConfigManager
import Voce.Engine.ConfigDirectory
import Voce.Engine.WorkflowStart
import Voce.Engine.WorkflowTermination
import Voce.Engine.OutputPacketRelease
import Voce.Engine.TrackInterrupt
import Voce.Engine.TrackPause
import Voce.Engine.TrackShutdown
import Voce.Remote.Heartbeat
import Voce.Remote.SessionCreation
import Voce.Engine.ReadySerialization
import Voce.Engine.LoopNetwork
import Voce.Engine.WorkerCycle
import Voce.Schema.FrozenObjects
import Voce.Schema.Marshalling
import Voce.Engine.MediaReferenceSafety
import Voce.Engine.SessionRemovalInvariant
import Voce.Gateway.ConnectionPoolGauges
import Voce.Gateway.ConnectionPoolSupply
import Voce.Gateway.RegistryAgreement
import Voce.Gateway.ClientSessionAgreement
import Voce.Gateway.TerminalSession
import Voce.Gateway.ConnectionSockets
import Voce.Machine.SessionRemoval
import Voce.Gateway.CloseExchangeBound
import Voce.Sdk.FinalReports
import Voce.Realtime.SocketHandler
import Voce.Realtime.ConnectionInterleaving
import Voce.Realtime.GrpcStream
import Voce.Gateway.Framing
import Voce.Remote.CallWait
import Voce.Plugins.Llm
import Voce.Plugins.MarkdownFilter
import Voce.Plugins.Captions
import Voce.Engine.PropertyContracts
import Voce.Engine.ConfigOverlay
import Voce.Plugins.MinimaxTts
import Voce.Plugins.OpenaiLlm
import Voce.Clients.Tui
import Voce.Syncx.ShardedMap
