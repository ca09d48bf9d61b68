import Thther.Server.WriterProtocol

/-!
# The wake-ups of `server_writer`

`data_ready` is notified by the PTY reader thread after an append and by `mark_ended` after the
swap of `ended`.  `server_writer` registers with it before it reads the ring and `ended`.  A thread
between its change and its notification is `Session.NotifyDue`; a waiting `server_writer` that has
not been notified has seen everything, or a notification is due (`no_lost_wakeup`), until the
offsets wrap (`not_caughtUp_past_wrap`).
-/

namespace Thther

/-- A thread has made its change, and its `notify_waiters` comes next. -/
def Session.NotifyDue (s : Session) : Prop :=
  s.ptyReader = .appended ∨ ∃ u, s.mark u = .notify

/-- What a step does to what `server_writer` waits for: it notifies all waiters, or each change it
makes leaves a notification due, and none that was due is lost. -/
structure Unnotified (s s' : Session) : Prop where
  ring : s'.shared.ring = s.shared.ring ∨ s'.ptyReader = .appended
  appended : s.ptyReader = .appended → s'.ptyReader = .appended
  ended : s'.shared.ended = s.shared.ended ∨ ∃ u, s'.mark u = .notify
  notify : (∃ u, s.mark u = .notify) → ∃ u, s'.mark u = .notify

theorem Unnotified.of_same {s s' : Session} (hring : s'.shared.ring = s.shared.ring)
    (happ : s.ptyReader ≠ .appended ∨ s'.ptyReader = s.ptyReader)
    (hended : s'.shared.ended = s.shared.ended) (hmark : s'.mark = s.mark) :
    Unnotified s s' where
  ring := Or.inl hring
  appended h := by
    rcases happ with hne | heq
    · exact absurd h hne
    · rw [heq, h]
  ended := Or.inl hended
  notify h := by rwa [hmark]

/-- The accesses of `mark_ended` other than its notification. -/
theorem MarkEnded.step_notify {ended ended' : Bool} {mark : EndThread → MarkEnded} {t : EndThread}
    {m : MarkEnded} (hne : mark t ≠ .notify)
    (h : MarkEnded.step ended (mark t) = some (m, ended')) :
    (ended' = ended ∨ m = .notify) ∧ ∀ u, mark u = .notify →
      Function.update mark t m u = .notify := by
  refine ⟨?_, fun u hu => ?_⟩
  · cases hm : mark t with
    | swap =>
      rw [hm, MarkEnded.step] at h
      split_ifs at h with he
      · cases h; exact Or.inl he.symm
      · cases h; exact Or.inr rfl
    | notify => exact absurd hm hne
    | remove => rw [hm] at h; cases h; exact Or.inl rfl
    | returned => rw [hm] at h; cases h
  · rw [Function.update_of_ne (fun hut => hne (by rw [← hut, hu])), hu]

theorem sessionStep_notify {s s' : Session} {e : SessionEvent} (h : sessionStep s e = some s') :
    (∀ c, s'.conns c = (s.conns c).wake) ∨ Unnotified s s' := by
  cases e with
  | ptyNotify =>
    simp only [sessionStep] at h
    split_ifs at h
    cases h
    exact Or.inl fun c => rfl
  | mark u =>
    simp only [sessionStep] at h
    split_ifs at h with hpast hnotify
    · split at h <;> cases h
      exact Or.inl fun c => rfl
    · split at h
      · cases h
      · rename_i m ended hm
        cases h
        obtain ⟨hended, hkeep⟩ := MarkEnded.step_notify hnotify hm
        refine Or.inr ⟨Or.inl rfl, id, hended.imp id fun hm => ⟨u, ?_⟩,
          fun hnext => hnext.imp hkeep⟩
        rw [← hm]
        exact Function.update_self _ _ _
  | ptyAppend =>
    simp only [sessionStep] at h
    split at h
    · cases h
      exact Or.inr ⟨Or.inr rfl, fun _ => rfl, Or.inl rfl, id⟩
    · cases h
  | ptyRead n =>
    simp only [sessionStep] at h
    split_ifs at h with hp
    cases h
    exact Or.inr (.of_same rfl (Or.inl (by simp [hp.1])) rfl rfl)
  | ptyEof =>
    simp only [sessionStep] at h
    split_ifs at h with hp
    cases h
    exact Or.inr (.of_same rfl (Or.inl (by simp [hp.1])) rfl rfl)
  | conn c e =>
    obtain ⟨shared, k, hc, rfl⟩ := sessionStep_conn h
    obtain ⟨hring, hended⟩ := connStep_shared hc
    exact Or.inr (.of_same hring (Or.inr rfl) hended rfl)
  | attach i e =>
    simp only [sessionStep] at h
    split at h
    · cases h
    · rename_i shared a ha
      cases h
      obtain ⟨hring, hended⟩ := attachStep_shared ha
      exact Or.inr (.of_same hring (Or.inr rfl) hended rfl)
  | shellWrite bytes | shellExit | hangUp =>
    simp only [sessionStep] at h
    split_ifs at h
    cases h
    exact Or.inr (.of_same rfl (Or.inr rfl) rfl rfl)

/-- What holds of a `server_writer` between `enable` and its `select!`: it is registered, and what
it has found unchanged is so, or it has been notified, or will be. -/
structure Session.Watching (s : Session) (k : Conn) : Prop where
  enabled : k.writer = .draining ∨ k.writer = .checkingEnded ∨ k.writer = .waiting →
    k.enabled = true
  ring : k.writer = .checkingEnded ∨ k.writer = .waiting → k.woken = true ∨
    serverWriterRead s.shared.ring k.cursor = none ∨ s.ptyReader = .appended
  ended : k.writer = .waiting → k.woken = true ∨ s.shared.ended = false ∨ ∃ u, s.mark u = .notify

/-- A notification reaches every `server_writer` that watches. -/
theorem Session.Watching.notified {s s' : Session} {k : Conn} (h : s.Watching k) :
    s'.Watching k.wake where
  enabled := h.enabled
  ring hw := Or.inl (by
    have he := h.enabled (Or.inr hw)
    simp [Conn.wake, he])
  ended hw := Or.inl (by
    have he := h.enabled (Or.inr (Or.inr hw))
    simp [Conn.wake, he])

theorem Session.Watching.unnotified {s s' : Session} {k : Conn} (h : s.Watching k)
    (hs : Unnotified s s') : s'.Watching k where
  enabled := h.enabled
  ring hw := by
    rcases h.ring hw with hwoken | hnone | happ
    · exact Or.inl hwoken
    · rcases hs.ring with hring | happ
      · rw [hring]
        exact Or.inr (Or.inl hnone)
      · exact Or.inr (Or.inr happ)
    · exact Or.inr (Or.inr (hs.appended happ))
  ended hw := by
    rcases h.ended hw with hwoken | hlive | hdue
    · exact Or.inl hwoken
    · rcases hs.ended with hended | hdue
      · rw [hended]
        exact Or.inr (Or.inl hlive)
      · exact Or.inr (Or.inr hdue)
    · exact Or.inr (Or.inr (hs.notify hdue))

/-- A step of the connection, which leaves the ring, `ended` and the threads as they are. -/
theorem Session.Watching.conn {s : Session} {k k' : Conn} {e : ConnEvent} (h : s.Watching k)
    (hs : ConnWritten s.shared k e k') : s.Watching k' := by
  cases hs with
  | start hp =>
    refine ⟨fun hw => ?_, fun hw => ?_, nofun⟩
    · rcases hw with hw | hw | hw <;> cases hw
    · rcases hw with hw | hw <;> cases hw
  | idle e k' _ hi =>
    refine ⟨?_, ?_, ?_⟩
    · rw [hi.writer, hi.enabled]
      exact h.enabled
    · rw [hi.writer, hi.woken, hi.cursor]
      exact h.ring
    · rw [hi.writer, hi.woken]
      exact h.ended
  | writer e k' _ hstep =>
    cases hstep with
    | enable hw =>
      exact ⟨fun _ => rfl, fun hor => (by rcases hor with hor | hor <;> cases hor), nofun⟩
    | drained hw hr =>
      exact ⟨fun _ => h.enabled (Or.inl hw), fun _ => Or.inr (Or.inl hr), nofun⟩
    | live hw hlive =>
      exact ⟨fun _ => h.enabled (Or.inr (Or.inl hw)), fun _ => h.ring (Or.inl hw),
        fun _ => Or.inr (Or.inl hlive)⟩
    | _ =>
      -- not between `enable` and the `select!`
      refine ⟨fun hor => ?_, fun hor => ?_, nofun⟩
      · rcases hor with hor | hor | hor <;> cases hor
      · rcases hor with hor | hor <;> cases hor

theorem watching_of_reachable {s : Session} (hs : sessionSystem.Reachable s) (c : ℕ) :
    s.Watching (s.conns c) := by
  refine System.invariant (I := fun s : Session => ∀ c, s.Watching (s.conns c)) ?_
    (fun s e s' h hst c => ?_) hs c
  · rintro s ⟨_, _, _, _, _, rfl⟩ c
    refine ⟨fun hor => ?_, fun hor => ?_, nofun⟩
    · rcases hor with hor | hor | hor <;> cases hor
    · rcases hor with hor | hor <;> cases hor
  · rcases sessionStep_notify hst with hwake | hun
    · rw [hwake c]
      exact (h c).notified
    · rcases sessionStep_conn_cases hst c with ⟨-, hc | hc⟩ | ⟨e', -, hc⟩
      · rw [hc]
        exact (h c).unnotified hun
      · rw [hc]
        exact (h c).notified
      · exact ((h c).conn (connStep_written hc)).unnotified hun

/-! ### The wake-up -/

/-- `server_writer` has sent all output there is, and the session goes on. -/
structure Session.CaughtUp (s : Session) (c : ℕ) : Prop where
  cursor : (s.conns c).cursor = s.shared.currentTotal
  live : s.shared.ended = false

/-- The ways to the next iteration that need no tick: the wake-up, or the one notification that is
due and then the wake-up. -/
def wakeRuns (c : ℕ) : List (List SessionEvent) :=
  [[.conn c .wake], [.ptyNotify, .conn c .wake], [.mark .reader, .conn c .wake],
    [.mark .reaper, .conn c .wake]]

/-- The next iteration of `server_writer` is at hand without a tick. -/
def Session.WakesAtOnce (s : Session) (c : ℕ) : Prop :=
  ∃ es ∈ wakeRuns c, ∃ s', sessionSystem.run s es = some s' ∧ (s'.conns c).writer = .checking

section Waiting

variable {s : Session} {c : ℕ}

theorem step_wake (hrun : (s.conns c).running = true) (hw : (s.conns c).writer = .waiting)
    (hwoken : (s.conns c).woken = true) :
    ∃ s', sessionStep s (.conn c .wake) = some s' ∧ (s'.conns c).writer = .checking := by
  simp only [sessionStep, connStep, hrun, hw, hwoken, and_self, if_true]
  exact ⟨_, rfl, by dsimp only; rw [Function.update_self]⟩

/-- After a notification the wake-up comes. -/
theorem run_notify_wake {s' : Session} {e : SessionEvent} (h : s.Watching (s.conns c))
    (hrun : (s.conns c).running = true) (hw : (s.conns c).writer = .waiting)
    (he : sessionStep s e = some s') (hconns : ∀ c, s'.conns c = (s.conns c).wake) :
    ∃ s'', sessionSystem.run s [e, .conn c .wake] = some s'' ∧
      (s''.conns c).writer = .checking := by
  have hwoken : (s'.conns c).woken = true := by
    rw [hconns]
    simp [Conn.wake, h.enabled (Or.inr (Or.inr hw))]
  obtain ⟨s'', hs'', hchecking⟩ :=
    step_wake (s := s') (by rw [hconns]; exact hrun) (by rw [hconns]; exact hw) hwoken
  refine ⟨s'', ?_, hchecking⟩
  rw [System.run_cons, show sessionSystem.step s e = some s' from he, Option.bind_some,
    System.run_singleton]
  exact hs''

/-- The notification that is due can be made. -/
theorem wakesAtOnce_of_due (hs : sessionSystem.Reachable s) (hrun : (s.conns c).running = true)
    (hw : (s.conns c).writer = .waiting) (hdue : s.NotifyDue) : s.WakesAtOnce c := by
  have h := watching_of_reachable hs c
  rcases hdue with happ | ⟨u, hu⟩
  · have hstep : sessionStep s .ptyNotify = some { s.notifyWaiters with ptyReader := .reading } :=
      if_pos happ
    obtain ⟨s', hs', hchecking⟩ := run_notify_wake h hrun hw hstep fun _ => rfl
    exact ⟨_, by simp [wakeRuns], s', hs', hchecking⟩
  · have hpast : s.past u = true := past_of_mark hs (by rw [hu]; exact nofun)
    have hstep : ∃ s', sessionStep s (.mark u) = some s' ∧
        ∀ c, s'.conns c = (s.conns c).wake := by
      simp only [sessionStep, hpast, hu, MarkEnded.step, if_true]
      exact ⟨_, rfl, fun _ => rfl⟩
    obtain ⟨s', hs', hconns⟩ := hstep
    obtain ⟨s'', hs'', hchecking⟩ := run_notify_wake h hrun hw hs' hconns
    refine ⟨[.mark u, .conn c .wake], ?_, s'', hs'', hchecking⟩
    cases u <;> simp [wakeRuns]

/-- What an unnotified `server_writer` waits for has not happened, or its notification is due. -/
theorem Session.Watching.caughtUp (hs : sessionSystem.Reachable s)
    (hlen : s.appended.length < 2 ^ 64) (hrun : (s.conns c).running = true)
    (hw : (s.conns c).writer = .waiting) (hwoken : (s.conns c).woken = false) :
    s.CaughtUp c ∨ s.NotifyDue := by
  have h := watching_of_reachable hs c
  rcases h.ring (Or.inr hw) with hyes | hnone | happ
  · rw [hwoken] at hyes
    cases hyes
  · rcases h.ended hw with hyes | hlive | hdue
    · rw [hwoken] at hyes
      cases hyes
    · refine Or.inl ⟨?_, hlive⟩
      have hring := ((streamed_of_reachable hs).2 hlen).ring
      have hge := hring.serverWriterRead_eq_none hlen hnone
      have hle := (inStream_of_reachable hs hlen c).cursor_le (Conn.writing_of_running hrun)
      rw [SessionShared.currentTotal, ← UInt64.toNat_inj, hring.toNat_total hlen]
      exact Nat.le_antisymm hle hge
    · exact Or.inr (Or.inr hdue)
  · exact Or.inr (Or.inl happ)

end Waiting

/-- **No wake-up is lost**, as long as the ring's total is below `2 ^ 64`.  In every run a
`server_writer` that waits and has not been notified has sent all output of a session that goes on,
or some thread has made its change and its notification is due; and where there is output to send
or the session has ended, the wake-up does not wait for a tick. -/
theorem no_lost_wakeup (s : Session) (hs : sessionSystem.Reachable s)
    (hlen : s.appended.length < 2 ^ 64) (c : ℕ) (hrun : (s.conns c).running = true)
    (hw : (s.conns c).writer = .waiting) :
    ((s.conns c).woken = false → s.CaughtUp c ∨ s.NotifyDue) ∧
      ((s.conns c).cursor ≠ s.shared.currentTotal ∨ s.shared.ended = true →
        s.WakesAtOnce c) := by
  refine ⟨Session.Watching.caughtUp hs hlen hrun hw, fun hpending => ?_⟩
  cases hwoken : (s.conns c).woken with
  | true =>
    obtain ⟨s', hs', hchecking⟩ := step_wake hrun hw hwoken
    refine ⟨_, List.mem_cons_self, s', ?_, hchecking⟩
    rw [System.run_singleton]
    exact hs'
  | false =>
    rcases Session.Watching.caughtUp hs hlen hrun hw hwoken with hcaught | hdue
    · rcases hpending with hne | hended
      · exact absurd hcaught.cursor hne
      · rw [hcaught.live] at hended
        cases hended
    · exact wakesAtOnce_of_due hs hrun hw hdue

/-- The PTY reader appends between the writer's read of the ring and its `select!`. -/
def lateAppendRun : List SessionEvent :=
  handshake 0 0 ++ [.conn 0 .fetchAdd, .conn 0 .storeConnected, .shellWrite [1], .ptyRead 1,
    .conn 0 .checkCurrent, .conn 0 .enable, .conn 0 .drain, .ptyAppend, .conn 0 .checkEnded]

theorem no_lost_wakeup_lateAppend :
    ∃ s, sessionSystem.run freshSession lateAppendRun = some s ∧
      (s.conns 0).writer = .waiting ∧ (s.conns 0).woken = false ∧ s.shared.ring.data = [1] ∧
      (s.CaughtUp 0 ∨ s.NotifyDue) ∧ s.WakesAtOnce 0 := by
  have hrun : sessionSystem.run freshSession lateAppendRun = some _ := rfl
  have h := no_lost_wakeup _ (System.reachable_of_run lateAppendRun initial_freshSession hrun)
    (by decide) 0 (by decide) rfl
  exact ⟨_, hrun, rfl, rfl, rfl, h.1 rfl, h.2 (Or.inl (by decide))⟩

/-! ### Past the last offset -/

/-- The shell writes a byte, and the PTY reader appends it. -/
def outputByte : List SessionEvent := [.shellWrite [0], .ptyRead 1, .ptyAppend, .ptyNotify]

/-- The PTY reader has appended everything, and connection 0 has not registered. -/
structure Session.Quiet (s : Session) : Prop where
  reader : s.ptyReader = .reading
  taken : s.shell.taken = s.shell.written.length
  up : s.shell.hungUp = false
  unregistered : (s.conns 0).enabled = false

theorem run_outputByte {s : Session} (h : s.Quiet) :
    ∃ s', sessionSystem.run s outputByte = some s' ∧ s'.Quiet ∧ s'.conns 0 = s.conns 0 ∧
      s'.shared = s.shared.appendOutput [0] ∧ s'.mark = s.mark := by
  obtain ⟨hreader, htaken, hup, hun⟩ := h
  have hwake : (s.conns 0).wake = s.conns 0 := by
    have hwoken : ((s.conns 0).woken || (s.conns 0).enabled) = (s.conns 0).woken := by
      rw [hun, Bool.or_false]
    rw [Conn.wake, hwoken]
  refine ⟨{ s with
    shell := { s.shell with written := s.shell.written ++ [0], taken := s.shell.taken + 1 }
    shared := s.shared.appendOutput [0]
    conns := fun c => (s.conns c).wake }, ?_, ⟨hreader, ?_, hup, ?_⟩, hwake, rfl, rfl⟩
  · simp [outputByte, sessionSystem, sessionStep, hreader, htaken, hup, ptyBufBytes,
      Session.notifyWaiters]
  · simp [htaken]
  · dsimp only
    rw [hwake, hun]

/-- Any number of bytes may follow, and the total wraps with them. -/
theorem run_outputBytes (n : ℕ) {s : Session} (h : s.Quiet) :
    ∃ es s', sessionSystem.run s es = some s' ∧ s'.Quiet ∧ s'.conns 0 = s.conns 0 ∧
      s'.shared.ended = s.shared.ended ∧ s'.shared.activeEpoch = s.shared.activeEpoch ∧
      s'.shared.currentTotal = s.shared.currentTotal + UInt64.ofNat n ∧ s'.mark = s.mark := by
  induction n generalizing s with
  | zero => exact ⟨[], s, rfl, h, rfl, rfl, rfl, by simp, rfl⟩
  | succ n ih =>
    obtain ⟨s₁, h₁, hquiet, hconn, hshared, hmark⟩ := run_outputByte h
    obtain ⟨es, s', hrun, hquiet', hconn', hended, hepoch, htotal, hmark'⟩ := ih hquiet
    refine ⟨outputByte ++ es, s', System.run_trans h₁ hrun, hquiet', hconn'.trans hconn, ?_, ?_,
      ?_, hmark'.trans hmark⟩
    · rw [hended, hshared]
      rfl
    · rw [hepoch, hshared]
      rfl
    · have hbyte : s₁.shared.currentTotal = s.shared.currentTotal + 1 := by
        rw [hshared]
        exact s.shared.ring.total_append [0]
      rw [htotal, hbyte, UInt64.add_assoc, Nat.add_comm n 1, UInt64.ofNat_add]
      rfl

/-- An iteration that finds nothing. -/
def idleIteration : List SessionEvent :=
  [.checkCurrent, .enable, .drain, .checkEnded].map (.conn 0)

theorem run_idleIteration {s : Session} (hrun : (s.conns 0).running = true)
    (hw : (s.conns 0).writer = .checking) (hcur : (s.conns 0).epoch = s.shared.activeEpoch)
    (hread : s.shared.currentTotal ≤ (s.conns 0).cursor) (hlive : s.shared.ended = false) :
    ∃ s', sessionSystem.run s idleIteration = some s' ∧ s'.shared = s.shared ∧
      s'.ptyReader = s.ptyReader ∧ s'.mark = s.mark ∧
      s'.conns 0 = { s.conns 0 with writer := .waiting, enabled := true, woken := false } := by
  have hnone : serverWriterRead s.shared.ring (s.conns 0).cursor = none :=
    serverWriterRead_of_total_le hread
  have hserving : (s.conns 0).phase = .serving := Conn.phase_of_running hrun
  have hreader : (s.conns 0).reader ≠ .done := by
    simp only [Conn.running, decide_eq_true_eq] at hrun
    exact hrun.2.1
  let k : Conn := { s.conns 0 with writer := .waiting, enabled := true, woken := false }
  refine ⟨{ s with conns := Function.update s.conns 0 k }, ?_, rfl, rfl, rfl,
    by dsimp only; rw [Function.update_self]⟩
  simp [idleIteration, sessionSystem, sessionStep, connStep, Conn.running, hserving, hreader, hw,
    SessionShared.isCurrent, hcur, hnone, hlive, k]

/-- A byte of output, and a connection that resumes behind it. -/
def resumedRun : List SessionEvent :=
  outputByte ++ handshake 0 1 ++ [.conn 0 .fetchAdd, .conn 0 .storeConnected]

/-- With `2 ^ 64` bytes of output the total is back at zero, and a `server_writer` that has sent
the first of them waits with no notification due. -/
theorem not_caughtUp_past_wrap : ¬ ∀ s c, sessionSystem.Reachable s →
    (s.conns c).running = true → (s.conns c).writer = .waiting → (s.conns c).woken = false →
      s.CaughtUp c ∨ s.NotifyDue := by
  intro h
  have hstart : ∃ s, sessionSystem.run freshSession resumedRun = some s ∧ s.Quiet ∧
      s.shared.currentTotal = 1 ∧ (s.conns 0).cursor = 1 ∧ s.shared.ended = false ∧
      (s.conns 0).phase = .serving ∧ (s.conns 0).reader = .reading ∧
      (s.conns 0).writer = .checking ∧ (s.conns 0).epoch = s.shared.activeEpoch ∧
      ∀ u, s.mark u = .swap :=
    ⟨_, rfl, ⟨rfl, rfl, rfl, rfl⟩, rfl, rfl, rfl, rfl, rfl, rfl, rfl, fun _ => rfl⟩
  obtain ⟨s₀, h₀, hquiet, htotal, hcursor, hended, hphase, hreader, hwriter, hepoch, hmark⟩ :=
    hstart
  obtain ⟨es, s₁, h₁, hquiet₁, hconn, hended₁, hepoch₁, htotal₁, hmark₁⟩ :=
    run_outputBytes (2 ^ 64 - 1) hquiet
  have hwrapped : s₁.shared.currentTotal = 0 := by
    rw [htotal₁, htotal]
    decide
  obtain ⟨s₂, h₂, hshared, hpty, hmark₂, hconn₂⟩ := run_idleIteration (s := s₁)
    (by rw [hconn]; simp [Conn.running, hphase, hreader, hwriter]) (by rw [hconn]; exact hwriter)
    (by rw [hconn, hepoch, hepoch₁]) (by rw [hwrapped, hconn, hcursor]; decide)
    (by rw [hended₁]; exact hended)
  have hreach : sessionSystem.Reachable s₂ := System.reachable_of_run _ initial_freshSession
    (System.run_trans (System.run_trans h₀ h₁) h₂)
  have hrunning : (s₂.conns 0).running = true := by
    simp [hconn₂, Conn.running, hconn, hphase, hreader]
  rcases h s₂ 0 hreach hrunning (by rw [hconn₂]) (by rw [hconn₂]) with hcaught | happ | ⟨u, hu⟩
  · have hzero := hcaught.cursor
    rw [hshared, hwrapped, hconn₂, hconn] at hzero
    exact absurd (hcursor.symm.trans hzero) (by decide)
  · rw [hpty, hquiet₁.reader] at happ
    cases happ
  · rw [hmark₂, hmark₁, hmark] at hu
    cases hu

end Thther
