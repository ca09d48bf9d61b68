import Thther.Lib.System
import Thther.Lib.Fencing
import Thther.Lib.ByteOrder
import Thther.Lib.Transcript
import Thther.Lib.Escape
import Thther.Machine
import Thther.Proto.Crypto
import Thther.Proto.Frame
import Thther.Proto.RecordStream
import Thther.Proto.WireFormat
import Thther.Proto.Canonical
import Thther.Server.RingBuf
import Thther.Proto.Control
import Thther.Server.SessionShared
import Thther.Server.Registry
import Thther.Server.ExecuteControl
import Thther.Server.Registration
import Thther.Server.HandleTcp
import Thther.Server.Session
import Thther.Client.SessionOutput
import Thther.Client.Writer
import Thther.Client.HeldPrefix
import Thther.Client.Reader
import Thther.Client.Drive
import Thther.Client.Commit
import Thther.Replay
import Thther.Proto.KeyUse
import Thther.Proto.Handshake
import Thther.Server.Takeover
import Thther.Server.ActiveConnection
import Thther.Server.BusyFlag
import Thther.Server.OutputStream
import Thther.Server.WriterLoop
import Thther.Server.EndOfOutput
import Thther.Server.PongChannel
import Thther.Server.WriterProtocol
import Thther.Server.Wakeup
import Thther.Server.Startup
import Thther.Server.KillRequest
import Thther.Server.Agent
import Thther.Server.Admission
import Thther.SecureChannel
import Thther.OutputIntegrity
import Thther.OutputRecovery
import Thther.Lib.Blocks
import Thther.Server.PtyWriter
import Thther.Typing
import Thther.Keystrokes
import Thther.Client.RemoteBootstrap
import Thther.Server.Ports
import Thther.Lib.Hex
import Thther.Lib.Lines
import Thther.Client.Command
import Thther.Server.ControlPlane
import Thther.Server.ControlRuns
import Thther.Server.ControlSessions
import Thther.CommandProgress
import Thther.Commands
import Thther.Credentials
import Thther.InputRecovery
import Thther.SessionEnd
