import Thther.Lib.Fencing
import Thther.Server.HandleTcp

/-!
# A session and everything that runs on it

The shell on its PTY, the PTY reader and reaper threads of `spawn_session`, any number of `Attach`
requests and any number of TCP connections, interleaved step by step on one `SessionShared`.

`History` records what the program does not; it is a history variable of `tracedSession`.
-/

namespace Thther

/-- The PTY and the processes on its slave side. -/
structure Shell where
  /-- Everything written to the slave side. -/
  written : List UInt8
  /-- How much of it the master side has given out. -/
  taken : ℕ
  /-- How much was written when the shell exited. -/
  exitedAt : Option ℕ
  /-- No process has the slave side open any more. -/
  hungUp : Bool

/-- Where the PTY reader thread is. -/
inductive PtyReader
  | reading
  /-- `append` comes next. -/
  | got (bytes : List UInt8)
  /-- `notify_waiters` comes next. -/
  | appended
  /-- Out of the loop: `mark_ended` comes next. -/
  | eof
  deriving DecidableEq

/-- Where `execute_control` is with an `Attach`; the comment names the step that comes next. -/
inductive AttachPhase
  /-- `registry.get` -/
  | requested
  /-- `is_ended` -/
  | found
  /-- `is_busy`: the load of `connected` -/
  | live
  /-- `is_busy`: the load of `ended` -/
  | connected
  /-- `rotate_psk` -/
  | free
  | refused (message : String)
  | rotated (psk : Psk)
  deriving DecidableEq

inductive AttachEvent
  | lookup (found : Bool)
  | checkEnded
  | checkConnected
  | checkLive
  /-- `rotate_psk`, with its draw. -/
  | rotate (psk : Psk)

/-- One step of an `Attach`. -/
def attachStep (shared : SessionShared) (a : AttachPhase) :
    AttachEvent → Option (SessionShared × AttachPhase)
  | .lookup found =>
    if a = .requested then some (shared, if found then .found else .refused "no such session")
    else none
  | .checkEnded =>
    if a = .found then some (shared, if shared.ended then .refused "session ended" else .live)
    else none
  | .checkConnected =>
    if a = .live then some (shared, if shared.connected then .connected else .free) else none
  | .checkLive =>
    if a = .connected then
      some (shared,
        if shared.ended then .free else .refused "session busy (already attached)")
    else none
  | .rotate psk => if a = .free then some (shared.rotatePsk psk, .rotated psk) else none

/-- A session with all its parties. -/
structure Session where
  shell : Shell
  shared : SessionShared
  ptyReader : PtyReader
  mark : EndThread → MarkEnded
  attaches : ℕ → AttachPhase
  conns : ℕ → Conn

inductive SessionEvent
  /-- The shell, or a process it has left behind, writes. -/
  | shellWrite (bytes : List UInt8)
  | shellExit
  | hangUp
  /-- `reader.read` returns that many bytes. -/
  | ptyRead (n : ℕ)
  | ptyAppend
  | ptyNotify
  /-- `reader.read` returns nothing or an error. -/
  | ptyEof
  /-- One access of `mark_ended`, by either thread. -/
  | mark (t : EndThread)
  | attach (i : ℕ) (e : AttachEvent)
  | conn (c : ℕ) (e : ConnEvent)

/-- The buffer of the PTY reader thread. -/
def ptyBufBytes : ℕ := 8192

namespace Session

/-- A thread is past its loop: the PTY reader at the end of the output, the reaper when
`child.wait` has returned. -/
def past (s : Session) : EndThread → Bool
  | .reader => s.ptyReader = .eof
  | .reaper => s.shell.exitedAt.isSome

/-- `data_ready.notify_waiters()`. -/
def notifyWaiters (s : Session) : Session := { s with conns := fun c => (s.conns c).wake }

end Session

/-- One event.  The registry is not part of the session, and `registry.remove` has no effect here;
`registry.get` finds the session or not, as the event says. -/
def sessionStep (s : Session) : SessionEvent → Option Session
  | .shellWrite bytes =>
    if s.shell.hungUp then none
    else some { s with shell := { s.shell with written := s.shell.written ++ bytes } }
  | .shellExit =>
    if s.shell.exitedAt = none then
      some { s with shell := { s.shell with exitedAt := some s.shell.written.length } }
    else none
  | .hangUp =>
    if s.shell.exitedAt ≠ none then some { s with shell := { s.shell with hungUp := true } }
    else none
  | .ptyRead n =>
    if s.ptyReader = .reading ∧ 0 < n ∧ n ≤ ptyBufBytes ∧
        s.shell.taken + n ≤ s.shell.written.length then
      some { s with
        shell := { s.shell with taken := s.shell.taken + n }
        ptyReader := .got ((s.shell.written.drop s.shell.taken).take n) }
    else none
  | .ptyAppend =>
    match s.ptyReader with
    | .got bytes => some { s with shared := s.shared.appendOutput bytes, ptyReader := .appended }
    | _ => none
  | .ptyNotify =>
    if s.ptyReader = .appended then some { s.notifyWaiters with ptyReader := .reading } else none
  | .ptyEof =>
    if s.ptyReader = .reading ∧ s.shell.hungUp ∧ s.shell.taken = s.shell.written.length then
      some { s with ptyReader := .eof }
    else none
  | .mark t =>
    if s.past t then
      match (s.mark t).step s.shared.ended with
      | none => none
      | some (m, ended) =>
        let s' := { s with
          shared := { s.shared with ended }
          mark := Function.update s.mark t m }
        if s.mark t = .notify then some s'.notifyWaiters else some s'
    else none
  | .attach i e =>
    match attachStep s.shared (s.attaches i) e with
    | none => none
    | some (shared, a) => some { s with shared, attaches := Function.update s.attaches i a }
  | .conn c e =>
    match connStep s.shared (s.conns c) e with
    | none => none
    | some (shared, k) => some { s with shared, conns := Function.update s.conns c k }

/-- A step of a connection changes the shared memory and that connection. -/
theorem sessionStep_conn {s s' : Session} {c : ℕ} {e : ConnEvent}
    (h : sessionStep s (.conn c e) = some s') :
    ∃ shared k, connStep s.shared (s.conns c) e = some (shared, k) ∧
      s' = { s with shared, conns := Function.update s.conns c k } := by
  cases hc : connStep s.shared (s.conns c) e with
  | none => simp [sessionStep, hc] at h
  | some r =>
    obtain ⟨shared, k⟩ := r
    simp only [sessionStep, hc, Option.some.injEq] at h
    exact ⟨shared, k, rfl, h.symm⟩

/-- A session that `spawn_session` has just set up. -/
def Session.new (shared : SessionShared) : Session where
  shell := ⟨[], 0, none, false⟩
  shared
  ptyReader := .reading
  mark _ := .swap
  attaches _ := .requested
  conns _ := Conn.new

/-- The first state, for any id, command, ring capacity and key. -/
def Session.Initial (s : Session) : Prop :=
  ∃ id started cmd ringBytes psk,
    s = Session.new (SessionShared.new id started cmd ringBytes psk)

def sessionSystem : System Session SessionEvent where
  init := Session.Initial
  step := sessionStep

/-! ### History -/

/-- What has happened along a run. -/
structure History where
  /-- The keys replaced so far, oldest first. -/
  rotated : List Psk
  /-- How many of them had been when the connection read the key. -/
  keyAt : ℕ → ℕ
  /-- The ring's total when the connection last read the ring. -/
  drained : ℕ → UInt64
  /-- Everything sent to the PTY, with the epoch of the connection it came from and the epoch of
  the session at that step. -/
  inputs : List (Fencing.Use PtyMsg)

def History.new : History where
  rotated := []
  keyAt _ := 0
  drained _ := 0
  inputs := []

/-- The history after an event. -/
def History.record (s : Session) (h : History) : SessionEvent → History
  | .attach _ (.rotate _) => { h with rotated := h.rotated ++ [s.shared.psk] }
  | .conn c .readPsk => { h with keyAt := Function.update h.keyAt c h.rotated.length }
  | .conn c .drain => { h with drained := Function.update h.drained c s.shared.currentTotal }
  | .conn c .handle =>
    { h with inputs := h.inputs ++
        ((s.conns c).toPty.map fun m => ⟨(s.conns c).epoch, s.shared.activeEpoch, m⟩).toList }
  | _ => h

/-- The session with its history. -/
def tracedSession : System (Session × History) SessionEvent :=
  sessionSystem.traced History.new History.record

end Thther
