import Thther.Machine

/-!
# Control-plane messages (`proto/control.rs`, `proto/handshake.rs`, `server/agent.rs`)

The requests the agent sends to the daemon and the daemon's answers.  A request is an operation
under any number of `OnPort` and `OnProtocol` wrappers; `ports`, `versions` and `operation` take
it apart.
-/

namespace Thther

namespace Handshake

def version : UInt8 := 2
def sessionIdLen : ℕ := 8

def statusOk : UInt8 := 0
def statusNoSession : UInt8 := 1
def statusVersionMismatch : UInt8 := 2
def statusBadOffset : UInt8 := 3

end Handshake

/-- Why a peer is turned away for good. -/
inductive Rejection
  | noSession
  | versionMismatch
  | badOffset
  deriving DecidableEq

/-- The `Display` texts of `Rejection`. -/
def Rejection.toString : Rejection → String
  | .noSession => "server: no such session"
  | .versionMismatch => "terminal protocol version mismatch; upgrade both ends and manually " ++
      "restart the daemon after finishing its sessions"
  | .badOffset => "server: resume offset exceeds session output"

/-- What a control client can ask for. -/
inductive ControlRequest
  | onProtocol (version : UInt8) (request : ControlRequest)
  | onPort (port : UInt16) (request : ControlRequest)
  | create (cols rows : UInt16)
  | attach (id : String)
  | ls
  | kill (id : String)
  deriving DecidableEq

/-- One line of `thther ls`. -/
structure SessionInfo where
  id : String
  started : UInt64
  status : String
  cmd : String
  deriving DecidableEq

/-- The daemon's answer. -/
inductive ControlResponse
  | bootstrap (port : UInt16) (id pskHex : String)
  | ls (sessions : List SessionInfo)
  | ok
  | err (message : String)
  deriving DecidableEq

namespace ControlRequest

/-- `matches!(req, Create { .. } | Attach { .. })`. -/
def needsProtocol : ControlRequest → Bool
  | create _ _ => true
  | attach _ => true
  | _ => false

/-- Neither `OnPort` nor `OnProtocol`. -/
def isOperation : ControlRequest → Bool
  | onProtocol _ _ => false
  | onPort _ _ => false
  | _ => true

/-- The ports the wrappers ask for. -/
def ports : ControlRequest → List UInt16
  | onPort port request => port :: request.ports
  | onProtocol _ request => request.ports
  | _ => []

/-- The protocol versions the wrappers ask for. -/
def versions : ControlRequest → List UInt8
  | onPort _ request => request.versions
  | onProtocol version request => version :: request.versions
  | _ => []

/-- The operation under the wrappers. -/
def operation : ControlRequest → ControlRequest
  | onPort _ request => request.operation
  | onProtocol _ request => request.operation
  | req => req

theorem operation_of_isOperation {req : ControlRequest} (h : req.isOperation = true) :
    req.operation = req ∧ req.ports = [] ∧ req.versions = [] := by
  cases req with
  | onProtocol version request => cases h
  | onPort port request => cases h
  | _ => exact ⟨rfl, rfl, rfl⟩

end ControlRequest

/-- The request `obtain` sends for an operation, with the port selected on the command line. -/
def obtainRequest (req : ControlRequest) (port : Option UInt16) : ControlRequest :=
  let req := if req.needsProtocol then .onProtocol Handshake.version req else req
  match port with
  | some port => .onPort port req
  | none => req

end Thther
