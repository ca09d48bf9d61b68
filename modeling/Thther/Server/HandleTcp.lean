import Thther.Proto.Control
import Thther.Server.SessionShared

/-!
# One TCP connection (`handle_tcp`, `server_reader`, `server_writer` in `server/daemon.rs`)

`connStep` is one step of a connection's task on the session's shared memory: every lock, every
atomic access and every `await` is a step of its own.  What comes from outside (a hello, a record
that opens or does not, a write that succeeds or fails, the timer) is part of the event.  The
record layer is left out: `recv` delivers what `read_frame` returns, and `sent` collects the
frames whose `write_frame` has returned `Ok`.

`reader` and `writer` are the two halves that `select!` runs once the connection is active; they
have a meaning while `phase` is `serving`.
-/

namespace Thther

/-- Where `handle_tcp` is; the comment names the step that comes next. -/
inductive ConnPhase
  /-- `server_recv` -/
  | accepted
  /-- `registry.get` -/
  | received
  /-- `is_ended` -/
  | found
  /-- `current_psk` -/
  | admitted
  /-- `current_total` and the check of the offset -/
  | keyed
  /-- `server_send_ok` -/
  | sized
  /-- `read_frame`, which must return `Hello` -/
  | replied
  /-- `write_frame` of the `Hello` in return -/
  | authenticated
  /-- `become_active`: `fetch_add` -/
  | greeted
  /-- `become_active`: `connected.store(true)` -/
  | activating
  /-- `select!` over `server_reader` and `server_writer` -/
  | serving
  /-- `leave`: the load of the epoch -/
  | leaving
  /-- `leave`: `connected.store(false)` -/
  | clearing
  | left
  /-- `server_send_err` with a status, and the end -/
  | refused (status : UInt8)
  | closed
  deriving DecidableEq

/-- Where `server_reader` is. -/
inductive ReaderHalf
  | reading
  | got (f : Frame)
  | done
  deriving DecidableEq

/-- Where the loop of `server_writer` is; the comment names the step that comes next. -/
inductive WriterHalf
  /-- `is_current` -/
  | checking
  /-- `notified.enable()` -/
  | enabling
  /-- `read_from` -/
  | draining
  /-- `is_ended` -/
  | checkingEnded
  /-- `select!` over the notification, the pongs and the timer -/
  | waiting
  /-- `write_frame` -/
  | sending (f : Frame)
  | done
  deriving DecidableEq

/-- The task of one connection, with its local variables. -/
structure Conn where
  phase : ConnPhase
  /-- `hello.offset` -/
  offset : UInt64
  psk : Option Psk
  total : UInt64
  epoch : ℕ
  reader : ReaderHalf
  /-- The filling of the pong channel. -/
  pongs : ℕ
  writer : WriterHalf
  cursor : UInt64
  /-- `notified` is registered with `data_ready`, and it has been notified since. -/
  enabled : Bool
  woken : Bool
  sent : List Frame
  deriving DecidableEq

namespace Conn

/-- A connection just accepted. -/
def new : Conn where
  phase := .accepted
  offset := 0
  psk := none
  total := 0
  epoch := 0
  reader := .reading
  pongs := 0
  writer := .checking
  cursor := 0
  enabled := false
  woken := false
  sent := []

/-- `select!` runs both halves until the first of them returns. -/
def running (k : Conn) : Bool := k.phase = .serving ∧ k.reader ≠ .done ∧ k.writer ≠ .done

theorem phase_of_running {k : Conn} (h : k.running = true) : k.phase = .serving := by
  simp [running] at h
  exact h.1

/-- `data_ready.notify_waiters()`, as it meets this connection. -/
def wake (k : Conn) : Conn := { k with woken := k.woken || k.enabled }

end Conn

inductive ConnEvent
  /-- `server_recv` fails, with a `Rejection` or otherwise. -/
  | helloFails (rejection : Bool)
  | recvHello (offset : UInt64)
  | lookup (found : Bool)
  | checkLive
  | readPsk
  | readTotal
  | reply (ok : Bool)
  /-- What the first `read_frame` returns. -/
  | openHello (f : Option Frame)
  | greet (ok : Bool)
  | fetchAdd
  | storeConnected
  /-- What a `read_frame` of `server_reader` returns in time. -/
  | recv (f : Option Frame)
  | handle
  | checkCurrent
  | enable
  | drain
  | checkEnded
  | wake
  | takePong
  | tick
  | send (ok : Bool)
  /-- One half has returned, and `select!` drops the other. -/
  | finish
  | leaveLoad
  | leaveStore
  deriving DecidableEq

/-- The capacity of the pong channel. -/
def pongCapacity : ℕ := 8

/-- `server_reader` on a frame; a `Ping` waits for room in the pong channel. -/
def readerHandle (shared : SessionShared) (k : Conn) : Frame → Option (SessionShared × Conn)
  | .data b => some (shared.sendInput b, { k with reader := .reading })
  | .resize cols rows => some (shared.resize cols rows, { k with reader := .reading })
  | .ping =>
    if k.pongs < pongCapacity then
      some (shared, { k with reader := .reading, pongs := k.pongs + 1 })
    else none
  | .output _ _ | .pong | .ack _ | .hello | .ended => some (shared, { k with reader := .reading })

/-- One step of a connection: the shared memory and the task after it. -/
def connStep (shared : SessionShared) (k : Conn) : ConnEvent → Option (SessionShared × Conn)
  | .helloFails rejection =>
    if k.phase = .accepted then
      let phase := if rejection then .refused Handshake.statusVersionMismatch else .closed
      some (shared, { k with phase })
    else none
  | .recvHello offset =>
    if k.phase = .accepted then some (shared, { k with phase := .received, offset }) else none
  | .lookup found =>
    if k.phase = .received then
      let phase := if found then .found else .refused Handshake.statusNoSession
      some (shared, { k with phase })
    else none
  | .checkLive =>
    if k.phase = .found then
      let phase := if shared.ended then .refused Handshake.statusNoSession else .admitted
      some (shared, { k with phase })
    else none
  | .readPsk =>
    if k.phase = .admitted then some (shared, { k with phase := .keyed, psk := some shared.psk })
    else none
  | .readTotal =>
    if k.phase = .keyed then
      let total := shared.currentTotal
      let phase := if total < k.offset then .refused Handshake.statusBadOffset else .sized
      some (shared, { k with phase, total })
    else none
  | .reply ok =>
    if k.phase = .sized then
      let phase := if ok then .replied else .closed
      some (shared, { k with phase })
    else none
  | .openHello f =>
    if k.phase = .replied then
      let phase := if f = some .hello then .authenticated else .closed
      some (shared, { k with phase })
    else none
  | .greet ok =>
    if k.phase = .authenticated then
      let phase := if ok then .greeted else .closed
      some (shared, { k with phase })
    else none
  | .fetchAdd =>
    if k.phase = .greeted then
      let (epoch, shared) := shared.fetchAddEpoch
      some (shared, { k with phase := .activating, epoch })
    else none
  | .storeConnected =>
    if k.phase = .activating then
      some (shared.storeConnected true, { k with
        phase := .serving, reader := .reading, pongs := 0, writer := .checking,
        cursor := k.offset, enabled := false, woken := false, sent := [] })
    else none
  | .recv f =>
    if k.running ∧ k.reader = .reading then
      let reader := match f with
        | some f => .got f
        | none => .done
      some (shared, { k with reader })
    else none
  | .handle =>
    if k.running then
      match k.reader with
      | .got f => readerHandle shared k f
      | _ => none
    else none
  | .checkCurrent =>
    if k.running ∧ k.writer = .checking then
      let writer := if shared.isCurrent k.epoch then .enabling else .done
      some (shared, { k with writer })
    else none
  | .enable =>
    if k.running ∧ k.writer = .enabling then
      some (shared, { k with writer := .draining, enabled := true, woken := false })
    else none
  | .drain =>
    if k.running ∧ k.writer = .draining then
      match serverWriterRead shared.ring k.cursor with
      | some (f, cursor) => some (shared, { k with writer := .sending f, cursor })
      | none => some (shared, { k with writer := .checkingEnded })
    else none
  | .checkEnded =>
    if k.running ∧ k.writer = .checkingEnded then
      let writer := if shared.ended then .sending .ended else .waiting
      some (shared, { k with writer })
    else none
  | .wake =>
    if k.running ∧ k.writer = .waiting ∧ k.woken then
      some (shared, { k with writer := .checking })
    else none
  | .takePong =>
    if k.running ∧ k.writer = .waiting ∧ 0 < k.pongs then
      some (shared, { k with writer := .sending .pong, pongs := k.pongs - 1 })
    else none
  | .tick =>
    if k.running ∧ k.writer = .waiting then
      some (shared, { k with writer := .sending .ping })
    else none
  | .send ok =>
    if k.running then
      match k.writer with
      | .sending f =>
        if ok then
          -- the loop goes on, except after `Ended`
          let writer := if f = .ended then .done else .checking
          some (shared, { k with writer, sent := k.sent ++ [f] })
        else some (shared, { k with writer := .done })
      | _ => none
    else none
  | .finish =>
    if k.phase = .serving ∧ (k.reader = .done ∨ k.writer = .done) then
      some (shared, { k with phase := .leaving })
    else none
  | .leaveLoad =>
    if k.phase = .leaving then
      let phase := if shared.isCurrent k.epoch then .clearing else .left
      some (shared, { k with phase })
    else none
  | .leaveStore =>
    if k.phase = .clearing then
      some (shared.storeConnected false, { k with phase := .left })
    else none

/-! ### The frame in hand -/

/-- The message `server_reader` sends to the PTY for a frame. -/
def Frame.toPty : Frame → Option PtyMsg
  | .data b => some (.input b)
  | .resize cols rows => some (.resize cols rows)
  | _ => none

/-- The message the next `handle` of a connection sends. -/
def Conn.toPty (k : Conn) : Option PtyMsg :=
  match k.reader with
  | .got f => f.toPty
  | _ => none

/-- `server_reader` passes a frame on to the PTY, or takes no action on the session. -/
theorem readerHandle_cases {shared shared' : SessionShared} {k k' : Conn} {f : Frame}
    (h : readerHandle shared k f = some (shared', k')) :
    (∃ m, f.toPty = some m ∧ shared' = { shared with toPty := shared.toPty ++ [m] } ∧
      k' = { k with reader := .reading }) ∨
    (f.toPty = none ∧ shared' = shared ∧ ∃ pongs, k' = { k with reader := .reading, pongs }) := by
  cases f with
  | data b => cases h; exact Or.inl ⟨_, rfl, rfl, rfl⟩
  | resize cols rows => cases h; exact Or.inl ⟨_, rfl, rfl, rfl⟩
  | ping =>
    simp only [readerHandle] at h
    split_ifs at h
    cases h
    exact Or.inr ⟨rfl, rfl, _, rfl⟩
  | _ => cases h; exact Or.inr ⟨rfl, rfl, _, rfl⟩

theorem connStep_handle {shared shared' : SessionShared} {k k' : Conn}
    (h : connStep shared k .handle = some (shared', k')) :
    k.running = true ∧
    ((∃ m, k.toPty = some m ∧ shared' = { shared with toPty := shared.toPty ++ [m] } ∧
      k' = { k with reader := .reading }) ∨
    (k.toPty = none ∧ shared' = shared ∧ ∃ pongs, k' = { k with reader := .reading, pongs })) := by
  simp only [connStep] at h
  split_ifs at h with hrun
  refine ⟨hrun, ?_⟩
  cases hr : k.reader with
  | got f =>
    rw [hr] at h
    rw [Conn.toPty, hr]
    exact readerHandle_cases h
  | _ => rw [hr] at h; cases h

/-- A running connection with input in hand can pass it on. -/
theorem connStep_handle_of_toPty (shared : SessionShared) {k : Conn} {m : PtyMsg}
    (hrun : k.running = true) (hm : k.toPty = some m) :
    connStep shared k .handle = some ({ shared with toPty := shared.toPty ++ [m] },
      { k with reader := .reading }) := by
  cases hr : k.reader with
  | got f =>
    rw [Conn.toPty, hr] at hm
    cases f <;> cases hm
    all_goals
      simp only [connStep, hrun, hr, if_true]
      rfl
  | _ => rw [Conn.toPty, hr] at hm; cases hm

end Thther
