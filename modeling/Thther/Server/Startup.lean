import Mathlib.Logic.Function.Basic
import Thther.Lib.System

/-!
# The start of the daemon (`run`, `bind_tcp` in `server/daemon.rs`)

Any number of `__daemon` processes of one user start, serve and die.  `startupStep` is one step of
one of them: a system call of `run` or its end.  What the operating system answers is part of the
event, and is limited to what it can answer: `flock` gives the lock to one process at a time and
takes it from a dead one; `connect` succeeds only where a live daemon listens, and where one does it
succeeds or fails with an error other than `NotFound` and `ConnectionRefused`; no TCP port is bound
twice.

* `StartupPhase`: where `run` is;
* `Host.Inv`: what holds in runs where no process gets a TCP port beside a live daemon;
* `one_daemon_of_binds_alone`: one daemon per user.
-/

namespace Thther

/-- `NonZeroU16`. -/
abbrev NonZeroU16 : Type := { port : UInt16 // port ≠ 0 }

/-- What `Config` says about TCP ports. -/
structure PortConfig where
  port : Option NonZeroU16
  portRange : UInt16 × UInt16

/-- What a process is started with: its configuration file and `--port`. -/
structure Launch where
  file : PortConfig
  port : Option NonZeroU16

/-- `cfg.port = port.or(cfg.port)`. -/
def Launch.config (l : Launch) : PortConfig := { l.file with port := l.port.or l.file.port }

/-- `bind_tcp_in_range`; `bind` says of which ports the bind succeeds. -/
def bindTcpInRange (bind : UInt16 → Bool) (range : UInt16 × UInt16) : Except String UInt16 :=
  let (lo, hi) := range
  if lo ≠ 0 ∧ lo ≤ hi then
    match ((List.range' lo.toNat (hi.toNat + 1 - lo.toNat)).map UInt16.ofNat).find? bind with
    | some port => .ok port
    | none => .error s!"no free TCP port in range {lo}-{hi}"
  else
    .error s!"invalid TCP port range {lo}-{hi}; expected 1 <= low <= high <= 65535"

/-- `bind_tcp`. -/
def bindTcp (bind : UInt16 → Bool) (cfg : PortConfig) : Except String UInt16 :=
  match cfg.port with
  | some ⟨port, _⟩ => if bind port then .ok port else .error s!"bind TCP port {port}"
  | none => bindTcpInRange bind cfg.portRange

/-- Where a process is in `run`; the comment names the step that comes next. -/
inductive StartupPhase
  /-- `flock` -/
  | starting
  /-- `UnixStream::connect` -/
  | locked
  /-- `bind_tcp` -/
  | probed
  /-- `remove_file` -/
  | bound (port : UInt16)
  /-- `UnixListener::bind` -/
  | cleared (port : UInt16)
  /-- `drop(startup_lock)` -/
  | published (port : UInt16)
  /-- the accept loops -/
  | serving (port : UInt16)
  /-- `run` has returned. -/
  | exited (res : Except String Unit)
  | killed

namespace StartupPhase

/-- The process has the startup lock. -/
def hasLock : StartupPhase → Bool
  | locked | probed | bound _ | cleared _ | published _ => true
  | starting | serving _ | exited _ | killed => false

/-- The process listens on the control socket it has bound. -/
def listens : StartupPhase → Bool
  | published _ | serving _ => true
  | starting | locked | probed | bound _ | cleared _ | exited _ | killed => false

/-- The process has its TCP port and has not bound the control socket. -/
def replaces : StartupPhase → Bool
  | bound _ | cleared _ => true
  | starting | locked | probed | published _ | serving _ | exited _ | killed => false

/-- The process runs. -/
def alive : StartupPhase → Bool
  | exited _ | killed => false
  | starting | locked | probed | bound _ | cleared _ | published _ | serving _ => true

end StartupPhase

/-- The processes of the user, and what they share. -/
structure Host where
  daemons : ℕ → StartupPhase
  /-- The process that holds `daemon.lock`. -/
  lock : Option ℕ
  /-- The process that has bound `control.sock`, as long as the file is there. -/
  socket : Option ℕ
  /-- The process that has bound a TCP port. -/
  ports : UInt16 → Option ℕ

/-- What `connect` answers. -/
inductive ConnectResult
  | ok
  | notFound
  | refused
  /-- Any other error. -/
  | other
  deriving DecidableEq

namespace Host

/-- The live daemon that listens on `control.sock`. -/
def listener (s : Host) : Option ℕ :=
  match s.socket with
  | none => none
  | some p => if (s.daemons p).listens then some p else none

/-- Process `p` is at `phase`. -/
def goto (s : Host) (p : ℕ) (phase : StartupPhase) : Host :=
  { s with daemons := Function.update s.daemons p phase }

/-- The lock, without process `p`. -/
def unlock (s : Host) (p : ℕ) : Host := { s with lock := if s.lock = some p then none else s.lock }

/-- Process `p` is gone: its lock and its port are free, and the file of its socket stays. -/
def leave (s : Host) (p : ℕ) (phase : StartupPhase) : Host :=
  let s := (s.goto p phase).unlock p
  { s with ports := fun port => if s.ports port = some p then none else s.ports port }

end Host

inductive StartupEvent
  /-- An error of `run` before it has the lock. -/
  | startFails (p : ℕ) (e : String)
  | flock (p : ℕ)
  | connect (p : ℕ) (res : ConnectResult)
  | bindTcp (p : ℕ) (bind : UInt16 → Bool)
  /-- `remove_file`, whose error is ignored. -/
  | unlink (p : ℕ) (ok : Bool)
  | bindUds (p : ℕ) (ok : Bool)
  | release (p : ℕ)
  /-- `uds.accept` fails, and `run` returns its error. -/
  | acceptFails (p : ℕ) (e : String)
  | kill (p : ℕ)

section Startup

variable (sockPath : String) (launch : ℕ → Launch)

/-- One step. -/
def startupStep (s : Host) : StartupEvent → Option Host
  | .startFails p e =>
    match s.daemons p with
    | .starting => some (s.leave p (.exited (.error e)))
    | _ => none
  | .flock p =>
    match s.daemons p with
    | .starting => if s.lock = none then some { s.goto p .locked with lock := some p } else none
    | _ => none
  | .connect p res =>
    match s.daemons p with
    | .locked =>
      match res with
      | .ok => if s.listener = none then none else some (s.leave p (.exited (.ok ())))
      | .notFound | .refused => if s.listener = none then some (s.goto p .probed) else none
      | .other => some (s.goto p .probed)
    | _ => none
  | .bindTcp p bind =>
    match s.daemons p with
    | .probed =>
      match Thther.bindTcp bind (launch p).config with
      | .error e => some (s.leave p (.exited (.error e)))
      | .ok port =>
        if s.ports port = none then
          some { s.goto p (.bound port) with ports := Function.update s.ports port (some p) }
        else none
    | _ => none
  | .unlink p ok =>
    match s.daemons p with
    | .bound port => some { s.goto p (.cleared port) with socket := if ok then none else s.socket }
    | _ => none
  | .bindUds p ok =>
    match s.daemons p with
    | .cleared port =>
      if ok then
        -- not where the file is there
        if s.socket = none then some { s.goto p (.published port) with socket := some p } else none
      else some (s.leave p (.exited (.error s!"bind control socket {sockPath}")))
    | _ => none
  | .release p =>
    match s.daemons p with
    | .published port => some ((s.goto p (.serving port)).unlock p)
    | _ => none
  | .acceptFails p e =>
    match s.daemons p with
    | .serving _ => some (s.leave p (.exited (.error e)))
    | _ => none
  | .kill p => if (s.daemons p).alive then some (s.leave p .killed) else none

/-- A host on which no daemon has been started, with the file that an earlier boot has left at
`control.sock`, if any. -/
def Host.new (socket : Option ℕ) : Host where
  daemons _ := .starting
  lock := none
  socket
  ports _ := none

/-- All runs of the processes of one user. -/
def startupSystem : System Host StartupEvent where
  init s := ∃ socket, s = Host.new socket
  step := startupStep sockPath launch

/-- One daemon per user: none unlinks the socket of a live one, at most one is published, and that
one is reached at `control.sock`. -/
structure Host.OneDaemon (s : Host) : Prop where
  unlink : ∀ p ok s', startupStep sockPath launch s (.unlink p ok) = some s' → s.listener = none
  unique : ∀ p q, (s.daemons p).listens = true → (s.daemons q).listens = true → p = q
  reachable : ∀ p, (s.daemons p).listens = true → s.listener = some p

/-- A process gets its TCP port only where no live daemon listens on `control.sock`. -/
def BindsAlone (s : Host) : StartupEvent → Prop
  | .bindTcp p bind => (∃ port, Thther.bindTcp bind (launch p).config = .ok port) →
    s.listener = none
  | _ => True

end Startup

/-! ### The invariant -/

/-- The startup lock excludes; a daemon that listens has the file; and while a process replaces the
socket no daemon listens. -/
structure Host.Inv (s : Host) : Prop where
  lock : ∀ p, (s.daemons p).hasLock = true → s.lock = some p
  socket : ∀ p, (s.daemons p).listens = true → s.socket = some p
  alone : ∀ p, (s.daemons p).replaces = true → ∀ q, (s.daemons q).listens = false

theorem StartupPhase.hasLock_of_replaces {phase : StartupPhase} (h : phase.replaces = true) :
    phase.hasLock = true := by
  cases phase <;> first | rfl | cases h

section Inv

variable {s s' : Host} {p q : ℕ}

theorem Host.listener_eq_some : s.listener = some p ↔
    s.socket = some p ∧ (s.daemons p).listens = true := by
  unfold Host.listener
  cases hs : s.socket with
  | none => simp
  | some q =>
    dsimp only
    split_ifs with hq
    · constructor
      · intro h
        cases h
        exact ⟨rfl, hq⟩
      · rintro ⟨h, -⟩
        exact h
    · constructor
      · intro h
        cases h
      · rintro ⟨h, hp⟩
        cases h
        exact absurd hp hq

theorem Host.Inv.listener (h : s.Inv) (hp : (s.daemons p).listens = true) :
    s.listener = some p := Host.listener_eq_some.2 ⟨h.socket p hp, hp⟩

theorem Host.inv_new (socket : Option ℕ) : (Host.new socket).Inv where
  lock _ := nofun
  socket _ := nofun
  alone _ := nofun

/-- Process `p` goes on to `phase`, and the lock and the socket may change hands with it. -/
theorem Host.Inv.update (h : s.Inv) (phase : StartupPhase)
    (hdaemons : s'.daemons = Function.update s.daemons p phase)
    (hlock : phase.hasLock = true → s'.lock = some p)
    (hlocks : ∀ q, q ≠ p → s.lock = some q → s'.lock = some q)
    (hsocket : phase.listens = true → s'.socket = some p)
    (hsockets : ∀ q, q ≠ p → (s.daemons q).listens = true → s'.socket = some q)
    (hreplace : phase.replaces = true → ∀ q, q ≠ p → (s.daemons q).listens = false)
    (hlisten : phase.listens = true → ∀ q, q ≠ p → (s.daemons q).replaces = false) : s'.Inv := by
  have hself : s'.daemons p = phase := by rw [hdaemons, Function.update_self]
  have hother : ∀ q, q ≠ p → s'.daemons q = s.daemons q := by
    intro q hq
    rw [hdaemons, Function.update_of_ne hq]
  have hnot : phase.replaces = true → phase.listens = false := by
    intro hr
    cases phase <;> first | rfl | cases hr
  refine ⟨?_, ?_, ?_⟩
  · intro q hq
    by_cases hqp : q = p
    · rw [hqp, hself] at hq
      rw [hqp]
      exact hlock hq
    · rw [hother q hqp] at hq
      exact hlocks q hqp (h.lock q hq)
  · intro q hq
    by_cases hqp : q = p
    · rw [hqp, hself] at hq
      rw [hqp]
      exact hsocket hq
    · rw [hother q hqp] at hq
      exact hsockets q hqp hq
  · intro q hq r
    by_cases hqp : q = p
    · rw [hqp, hself] at hq
      by_cases hrp : r = p
      · rw [hrp, hself]
        exact hnot hq
      · rw [hother r hrp]
        exact hreplace hq r hrp
    · rw [hother q hqp] at hq
      by_cases hrp : r = p
      · -- a process that begins to listen does so beside none that replaces
        rw [hrp, hself, Bool.eq_false_iff]
        intro hl
        rw [hlisten hl q hqp] at hq
        cases hq
      · rw [hother r hrp]
        exact h.alone q hq r

/-- Giving up the lock takes it from no other process. -/
theorem Host.lock_unlock {q : ℕ} (hqp : q ≠ p) (hlock : s.lock = some q) :
    (s.unlock p).lock = some q := by
  show (if s.lock = some p then none else s.lock) = some q
  rw [if_neg, hlock]
  rw [hlock, Option.some.injEq]
  exact hqp

theorem Host.Inv.leave (h : s.Inv) {phase : StartupPhase} (hphase : phase.alive = false) :
    (s.leave p phase).Inv := by
  have hout : phase.hasLock = false ∧ phase.listens = false ∧ phase.replaces = false := by
    cases phase with
    | exited res => exact ⟨rfl, rfl, rfl⟩
    | killed => exact ⟨rfl, rfl, rfl⟩
    | _ => cases hphase
  apply h.update phase rfl
  · intro hl
    rw [hout.1] at hl
    cases hl
  · intro q hqp hlock
    exact Host.lock_unlock (s := s.goto p phase) hqp hlock
  · intro hl
    rw [hout.2.1] at hl
    cases hl
  · exact fun q _ => h.socket q
  · intro hr
    rw [hout.2.2] at hr
    cases hr
  · intro hl
    rw [hout.2.1] at hl
    cases hl

/-- A process that has the lock is the only one. -/
theorem Host.Inv.unique_lock (h : s.Inv) (hp : (s.daemons p).hasLock = true)
    (hq : (s.daemons q).hasLock = true) : q = p := by
  have hlock := h.lock p hp
  rw [h.lock q hq, Option.some.injEq] at hlock
  exact hlock

/-- A step keeps the invariant, unless it gets a TCP port beside a live daemon. -/
theorem Host.Inv.step {sockPath : String} {launch : ℕ → Launch} {e : StartupEvent} (h : s.Inv)
    (hok : BindsAlone launch s e) (hstep : startupStep sockPath launch s e = some s') :
    s'.Inv := by
  cases e with
  | startFails p e =>
    simp only [startupStep] at hstep
    split at hstep <;> cases hstep
    exact h.leave rfl
  | flock p =>
    simp only [startupStep] at hstep
    split at hstep
    · split_ifs at hstep with hfree
      cases hstep
      refine h.update .locked rfl (fun _ => rfl) ?_ nofun (fun q _ => h.socket q) nofun
        nofun
      intro q _ hlock
      rw [hfree] at hlock
      cases hlock
    · cases hstep
  | connect p res =>
    simp only [startupStep] at hstep
    split at hstep
    · rename_i hphase
      have hprobed : (s.goto p .probed).Inv :=
        h.update .probed rfl (fun _ => h.lock p (by rw [hphase]; rfl))
          (fun _ _ hlock => hlock) nofun (fun q _ => h.socket q) nofun nofun
      cases res with
      | ok =>
        dsimp only at hstep
        split_ifs at hstep
        cases hstep
        exact h.leave rfl
      | other =>
        cases hstep
        exact hprobed
      | _ =>
        dsimp only at hstep
        split_ifs at hstep
        cases hstep
        exact hprobed
    · cases hstep
  | bindTcp p bind =>
    simp only [startupStep] at hstep
    split at hstep
    · rename_i hphase
      split at hstep
      · cases hstep
        exact h.leave rfl
      · rename_i port hport
        split_ifs at hstep
        cases hstep
        have hnone := hok ⟨port, hport⟩
        refine h.update (.bound port) rfl (fun _ => h.lock p (by rw [hphase]; rfl))
          (fun _ _ hlock => hlock) nofun (fun q _ => h.socket q) ?_ nofun
        intro _ q _
        rw [Bool.eq_false_iff]
        intro hq
        rw [h.listener hq] at hnone
        cases hnone
    · cases hstep
  | unlink p ok =>
    simp only [startupStep] at hstep
    split at hstep
    · rename_i port hphase
      cases hstep
      have halone := h.alone p (by rw [hphase]; rfl)
      refine h.update (.cleared port) rfl (fun _ => h.lock p (by rw [hphase]; rfl))
        (fun _ _ hlock => hlock) nofun ?_ (fun _ q _ => halone q) nofun
      intro q _ hq
      rw [halone q] at hq
      cases hq
    · cases hstep
  | bindUds p ok =>
    simp only [startupStep] at hstep
    split at hstep
    · rename_i port hphase
      split_ifs at hstep
      · cases hstep
        have halone := h.alone p (by rw [hphase]; rfl)
        have hlock : (s.daemons p).hasLock = true := by rw [hphase]; rfl
        refine h.update (.published port) rfl (fun _ => h.lock p hlock)
          (fun _ _ hlock => hlock) (fun _ => rfl) ?_ nofun ?_
        · intro q _ hq
          rw [halone q] at hq
          cases hq
        · intro _ q hqp
          rw [Bool.eq_false_iff]
          intro hq
          exact hqp (h.unique_lock hlock (StartupPhase.hasLock_of_replaces hq))
      · cases hstep
        exact h.leave rfl
    · cases hstep
  | release p =>
    simp only [startupStep] at hstep
    split at hstep
    · rename_i port hphase
      cases hstep
      have hlistens : (s.daemons p).listens = true := by rw [hphase]; rfl
      refine h.update (.serving port) rfl nofun ?_ (fun _ => h.socket p hlistens)
        (fun q _ => h.socket q) nofun ?_
      · intro q hqp hlock
        exact Host.lock_unlock (s := s.goto p (.serving port)) hqp hlock
      · intro _ q _
        rw [Bool.eq_false_iff]
        intro hq
        have := h.alone q hq p
        rw [hlistens] at this
        cases this
    · cases hstep
  | acceptFails p e =>
    simp only [startupStep] at hstep
    split at hstep <;> cases hstep
    exact h.leave rfl
  | kill p =>
    simp only [startupStep] at hstep
    split_ifs at hstep
    cases hstep
    exact h.leave rfl

theorem Host.Inv.oneDaemon {sockPath : String} {launch : ℕ → Launch} (h : s.Inv) :
    s.OneDaemon sockPath launch := by
  refine ⟨?_, ?_, ?_⟩
  · intro p ok s' hstep
    simp only [startupStep] at hstep
    split at hstep
    · rename_i port hphase
      have halone := h.alone p (by rw [hphase]; rfl)
      cases hl : s.listener with
      | none => rfl
      | some q =>
        have hq := (Host.listener_eq_some.1 hl).2
        rw [halone q] at hq
        cases hq
    · cases hstep
  · intro p q hp hq
    have hsocket := h.socket p hp
    rw [h.socket q hq, Option.some.injEq] at hsocket
    exact hsocket.symm
  · exact fun p => h.listener

/-- A process that has its TCP port beside a live daemon can unlink that daemon's socket. -/
theorem exists_unlinked {sockPath : String} {launch : ℕ → Launch} {e : StartupEvent}
    (hbad : ¬ BindsAlone launch s e) (hstep : startupStep sockPath launch s e = some s') :
    ∃ p q s'', s'.listener = some q ∧ startupStep sockPath launch s' (.unlink p true) = some s'' ∧
      (s''.daemons q).listens = true ∧ s''.listener = none := by
  cases e with
  | bindTcp p bind =>
    simp only [BindsAlone, not_forall] at hbad
    obtain ⟨⟨port, hport⟩, hlive⟩ := hbad
    obtain ⟨q, hq⟩ := Option.ne_none_iff_exists'.1 hlive
    obtain ⟨hsocket, hlistens⟩ := Host.listener_eq_some.1 hq
    simp only [startupStep, hport] at hstep
    split at hstep
    · rename_i hphase
      split_ifs at hstep
      cases hstep
      have hqp : q ≠ p := by
        rintro rfl
        rw [hphase] at hlistens
        cases hlistens
      have hother : ∀ phase, Function.update s.daemons p phase q = s.daemons q :=
        fun phase => Function.update_of_ne hqp phase s.daemons
      refine ⟨p, q, { s.goto p (.cleared port) with
        ports := Function.update s.ports port (some p), socket := none }, ?_, ?_, ?_, rfl⟩
      · rw [Host.listener_eq_some]
        refine ⟨hsocket, ?_⟩
        show (Function.update s.daemons p (.bound port) q).listens = true
        rw [hother]
        exact hlistens
      · have hbound : (s.goto p (.bound port)).daemons p = .bound port := by
          unfold Host.goto
          dsimp only
          rw [Function.update_self]
        simp only [startupStep, hbound, if_true]
        simp only [Host.goto, Function.update_idem]
      · show (Function.update s.daemons p (.cleared port) q).listens = true
        rw [hother]
        exact hlistens
    · cases hstep
  | _ => exact absurd trivial hbad

end Inv

/-- **One daemon per user** in every run in which a process gets its TCP port only where no live
daemon listens on `control.sock`; and a process that gets it elsewhere can go on to unlink the
socket of that daemon. -/
theorem one_daemon_of_binds_alone (sockPath : String) (launch : ℕ → Launch) (s : Host)
    (hs : (startupSystem sockPath launch).ReachableWith (BindsAlone launch) s) :
    s.OneDaemon sockPath launch ∧
      ∀ e s', ¬ BindsAlone launch s e → startupStep sockPath launch s e = some s' →
        ∃ p q s'', s'.listener = some q ∧
          startupStep sockPath launch s' (.unlink p true) = some s'' ∧
          (s''.daemons q).listens = true ∧ s''.listener = none := by
  have hinv : s.Inv := by
    refine System.invariant_with ?_ ?_ hs
    · rintro s ⟨socket, rfl⟩
      exact Host.inv_new socket
    · intro s e s' h hok hstep
      exact h.step hok hstep
  exact ⟨hinv.oneDaemon, fun e s' hbad hstep => exists_unlinked hbad hstep⟩

/-- Every process is started with these options and the default range. -/
def launchWith (port : Option NonZeroU16) (_ : ℕ) : Launch := ⟨⟨none, 60000, 61000⟩, port⟩

/-- The first daemon comes up; the second one finds its socket busy. -/
def busyProbeRun (bind : UInt16 → Bool) : List StartupEvent :=
  [.flock 0, .connect 0 .notFound, .bindTcp 0 fun _ => true, .unlink 0 false, .bindUds 0 true,
    .release 0, .flock 1, .connect 1 .other, .bindTcp 1 bind]

/-- Both are started with the same `--port`, and the second one does not get it. -/
theorem one_daemon_of_binds_alone_samePort : ∃ s,
    (startupSystem "control.sock" (launchWith (some ⟨62000, by decide⟩))).run (.new none)
      (busyProbeRun fun _ => false) = some s ∧ s.listener = some 0 ∧
    s.OneDaemon "control.sock" (launchWith (some ⟨62000, by decide⟩)) := by
  have hinit : (startupSystem "control.sock" (launchWith (some ⟨62000, by decide⟩))).init
      (.new none) := ⟨none, rfl⟩
  have hrun : (startupSystem "control.sock" (launchWith (some ⟨62000, by decide⟩))).run
      (.new none) (busyProbeRun fun _ => false) = some _ := rfl
  refine ⟨_, hrun, rfl, (one_daemon_of_binds_alone "control.sock" _ _
    ((System.ReachableWith.init hinit).run_meets ?_ hrun)).1⟩
  refine ⟨trivial, trivial, fun _ => rfl, trivial, trivial, trivial, trivial, trivial, ?_, trivial⟩
  rintro ⟨port, hport⟩
  cases hport

/-- Without `--port` the second one takes the next port of the range, and then the socket. -/
theorem second_daemon_takes_socket : ∃ s,
    (startupSystem "control.sock" (launchWith none)).run (.new none)
      (busyProbeRun (fun port => port ≠ 60000) ++ [.unlink 1 true, .bindUds 1 true, .release 1]) =
        some s ∧
    s.daemons 0 = .serving 60000 ∧ s.daemons 1 = .serving 60001 ∧ s.listener = some 1 ∧
    ¬ s.OneDaemon "control.sock" (launchWith none) := by
  refine ⟨_, rfl, rfl, rfl, rfl, ?_⟩
  intro h
  exact absurd (h.unique 0 1 rfl rfl) (by decide)

end Thther
