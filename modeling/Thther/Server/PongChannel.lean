import Thther.Server.ActiveConnection

/-!
# The pong channel under output that does not pause (`server_reader`, `server_writer`)

`server_reader` answers a `Ping` through a channel that holds 8 pongs, and waits where it is full;
`server_writer` takes from the channel only in the `select!` at the end of its loop, which it does
not reach while there is output to send.  `OutputBranch` allows the steps of the two halves in
which the writer never gets there, and everything the shell may write meanwhile.

* `Conn.owed`: the pongs that the channel will have to hold;
* `passes_iff_owed_le`: which input gets through.
-/

namespace Thther

/-- The frame that `server_reader` has read and not yet handled. -/
def ReaderHalf.inHand : ReaderHalf → List Frame
  | .got f => [f]
  | .reading | .done => []

/-- The pongs in the channel, and those for the pings in hand and among `fs`. -/
def Conn.owed (k : Conn) (fs : List Frame) : ℕ := k.pongs + (k.reader.inHand ++ fs).count .ping

/-- Steps of `server_reader` on frames that have arrived, iterations of `server_writer` of
connection `c` that find the ring's total above their cursor, and a shell that goes on writing. -/
def OutputBranch (c : ℕ) (s : Session) : SessionEvent → Prop
  | .shellWrite _ | .ptyRead _ | .ptyAppend | .ptyNotify => True
  | .conn d e => d = c ∧
    match e with
    | .recv f => f ≠ none
    | .handle | .wake | .checkCurrent | .enable => True
    | .drain => (s.conns c).cursor < s.shared.ring.total
    | .send ok => ok = true
    | _ => False
  | _ => False

/-- The frames that arrive on connection `c`. -/
def arrivals (c : ℕ) (es : List SessionEvent) : List Frame :=
  es.filterMap fun
    | .conn d (.recv f) => if d = c then f else none
    | _ => none

/-- A `Data` that has arrived behind the frames `fs` is handed to `send_input` while the writer
takes the output branch only. -/
def Session.Passes (s : Session) (c : ℕ) (fs : List Frame) (b : List UInt8) : Prop :=
  ∃ es s₁ s₂, sessionSystem.RunMeets (OutputBranch c) s es ∧ arrivals c es = fs ++ [.data b] ∧
    sessionSystem.run s es = some s₁ ∧ sessionStep s₁ (.conn c .handle) = some s₂ ∧
    s₂.shared.toPty = s₁.shared.toPty ++ [.input b]

theorem arrivals_append (c : ℕ) (es es' : List SessionEvent) :
    arrivals c (es ++ es') = arrivals c es ++ arrivals c es' := List.filterMap_append

/-! ### The channel holds no more than its capacity -/

theorem connStep_pongs {shared shared' : SessionShared} {k k' : Conn} {e : ConnEvent}
    (h : connStep shared k e = some (shared', k')) (hp : k.pongs ≤ pongCapacity) :
    k'.pongs ≤ pongCapacity := by
  cases e with
  | handle =>
    simp only [connStep] at h
    split_ifs at h
    split at h
    · rename_i f _
      cases f with
      | ping =>
        simp only [readerHandle] at h
        split_ifs at h with hroom
        cases h
        exact hroom
      | _ => cases h; exact hp
    · cases h
  | takePong =>
    simp only [connStep] at h
    split_ifs at h
    cases h
    exact Nat.le_trans (Nat.sub_le _ _) hp
  | storeConnected =>
    simp only [connStep] at h
    split_ifs at h
    cases h
    exact Nat.zero_le _
  | drain =>
    simp only [connStep] at h
    split_ifs at h
    split at h <;> cases h <;> exact hp
  | send ok =>
    simp only [connStep] at h
    split_ifs at h
    all_goals
      split at h <;> cases h
      exact hp
  | _ =>
    simp only [connStep] at h
    split_ifs at h
    all_goals
      cases h
      exact hp

theorem sessionStep_pongs {s s' : Session} {e : SessionEvent} (h : sessionStep s e = some s')
    (hp : ∀ c, (s.conns c).pongs ≤ pongCapacity) (c : ℕ) : (s'.conns c).pongs ≤ pongCapacity := by
  cases sessionStep_cases h with
  | background e s' _ hb =>
    rcases hb.conns c with hc | hc
    · rw [hc]
      exact hp c
    · rw [hc]
      exact hp c
  | rotate i psk _ => exact hp c
  | conn d e shared k hk =>
    exact forall_update (P := fun _ k => k.pongs ≤ pongCapacity) (fun c _ => hp c)
      (connStep_pongs hk (hp d)) c

theorem pongs_le_of_reachable {s : Session} (hs : sessionSystem.Reachable s) (c : ℕ) :
    (s.conns c).pongs ≤ pongCapacity := by
  refine System.invariant (I := fun s : Session => ∀ c, (s.conns c).pongs ≤ pongCapacity)
    ?_ ?_ hs c
  · rintro s ⟨id, started, cmd, ringBytes, psk, rfl⟩ c
    exact Nat.zero_le _
  · intro s e s' hp hstep
    exact sessionStep_pongs hstep hp

/-! ### The output branch drains nothing -/

/-- A `Ping` in hand becomes a pong in the channel; the writer's steps leave both alone. -/
theorem connStep_owed {shared shared' : SessionShared} {k k' : Conn} {c : ℕ} {s : Session}
    {e : ConnEvent} (h : connStep shared k e = some (shared', k'))
    (hok : OutputBranch c s (.conn c e)) :
    k'.owed [] = k.owed (arrivals c [.conn c e]) := by
  cases e with
  | recv f =>
    obtain ⟨f, rfl⟩ := Option.ne_none_iff_exists'.1 hok.2
    simp only [connStep] at h
    split_ifs at h with hrun
    cases h
    simp [Conn.owed, arrivals, ReaderHalf.inHand, hrun.2]
  | handle =>
    simp only [connStep] at h
    split_ifs at h
    cases hr : k.reader with
    | got f =>
      rw [hr] at h
      cases f with
      | ping =>
        simp only [readerHandle] at h
        split_ifs at h
        cases h
        simp [Conn.owed, arrivals, ReaderHalf.inHand, hr]
      | _ => cases h; simp [Conn.owed, arrivals, ReaderHalf.inHand, hr]
    | _ => rw [hr] at h; cases h
  | drain =>
    simp only [connStep] at h
    split_ifs at h
    split at h <;> cases h <;> rfl
  | send ok =>
    simp only [connStep] at h
    split_ifs at h
    all_goals
      split at h <;> cases h
      rfl
  | wake => simp only [connStep] at h; split_ifs at h; cases h; rfl
  | checkCurrent =>
    simp only [connStep] at h
    split_ifs at h <;> cases h <;> rfl
  | enable => simp only [connStep] at h; split_ifs at h; cases h; rfl
  | _ => exact absurd hok.2 id

theorem Conn.owed_append (k : Conn) (fs gs : List Frame) :
    k.owed (fs ++ gs) = k.owed fs + gs.count .ping := by
  unfold Conn.owed
  rw [← List.append_assoc, List.count_append, Nat.add_assoc]

section Passing

variable {s s' : Session} {c : ℕ}

theorem sessionStep_owed {e : SessionEvent} (h : sessionStep s e = some s')
    (hok : OutputBranch c s e) : (s'.conns c).owed [] = (s.conns c).owed (arrivals c [e]) := by
  rcases sessionStep_conn_cases h c with ⟨hne, hc⟩ | ⟨e, rfl, hk⟩
  · have hnone : arrivals c [e] = [] := by
      cases e with
      | conn d e =>
        obtain rfl : d = c := hok.1
        exact absurd rfl (hne e)
      | _ => rfl
    rw [hnone]
    rcases hc with hc | hc
    · rw [hc]
    · rw [hc]
      rfl
  · exact connStep_owed hk hok

/-- Along such a run, what is owed grows by the pings that arrive. -/
theorem run_owed {es : List SessionEvent} (h : sessionSystem.run s es = some s')
    (hok : sessionSystem.RunMeets (OutputBranch c) s es) :
    (s'.conns c).owed [] = (s.conns c).owed (arrivals c es) := by
  induction es generalizing s with
  | nil =>
    cases h
    rfl
  | cons e es ih =>
    have hsplit : arrivals c (e :: es) = arrivals c [e] ++ arrivals c es := arrivals_append c [e] es
    rw [System.run_cons, Option.bind_eq_some_iff] at h
    obtain ⟨s₁, h₁, h₂⟩ := h
    obtain ⟨he, hes⟩ := hok
    rw [h₁] at hes
    have hstep := sessionStep_owed h₁ he
    calc (s'.conns c).owed [] = (s₁.conns c).owed ([] ++ arrivals c es) := ih h₂ hes
      _ = (s.conns c).owed (arrivals c [e]) + (arrivals c es).count .ping := by
        rw [Conn.owed_append, hstep]
      _ = (s.conns c).owed (arrivals c (e :: es)) := by rw [hsplit, Conn.owed_append]

/-- Input that gets through leaves room in the channel for every `Ping` in front of it. -/
theorem Session.Passes.owed_le {fs : List Frame} {b : List UInt8} (h : s.Passes c fs b)
    (hp : ∀ c, (s.conns c).pongs ≤ pongCapacity) : (s.conns c).owed fs ≤ pongCapacity := by
  obtain ⟨es, s₁, s₂, hok, harr, hrun, hhandle, hinput⟩ := h
  have hpongs : (s₁.conns c).pongs ≤ pongCapacity :=
    System.run_invariant (I := fun s : Session => ∀ c, (s.conns c).pongs ≤ pongCapacity)
      (fun _ _ _ hp hstep => sessionStep_pongs hstep hp) hp hrun c
  have howed := run_owed hrun hok
  rw [harr, Conn.owed_append] at howed
  -- the frame in hand at the end is the `Data`
  have hhand : (s₁.conns c).toPty = some (.input b) := by
    obtain ⟨shared, k, hk, rfl⟩ := sessionStep_conn hhandle
    obtain ⟨-, ⟨m, hm, rfl, -⟩ | ⟨-, rfl, -⟩⟩ := connStep_handle hk
    · rw [hm]
      exact congrArg some (List.singleton_inj.1 (List.append_cancel_left hinput))
    · have hlen := congrArg List.length hinput
      simp at hlen
  have hlast : (s₁.conns c).owed [] = (s₁.conns c).pongs := by
    unfold Conn.toPty at hhand
    unfold Conn.owed
    cases hr : (s₁.conns c).reader with
    | got f =>
      rw [hr] at hhand
      cases f with
      | ping => cases hhand
      | _ => simp [ReaderHalf.inHand]
    | _ => rw [hr] at hhand; cases hhand
  omega

/-! ### The reader gets through on its own -/

theorem sessionStep_of_connStep {e : ConnEvent} {shared : SessionShared} {k : Conn}
    (h : connStep s.shared (s.conns c) e = some (shared, k)) :
    sessionStep s (.conn c e) = some { s with shared, conns := Function.update s.conns c k } := by
  simp only [sessionStep, h]

theorem exists_run_conn {e : ConnEvent} {shared : SessionShared} {k : Conn}
    (hk : connStep s.shared (s.conns c) e = some (shared, k))
    (hok : OutputBranch c s (.conn c e)) :
    ∃ s', sessionSystem.RunMeets (OutputBranch c) s [.conn c e] ∧
      sessionSystem.run s [.conn c e] = some s' ∧ s'.conns c = k := by
  refine ⟨{ s with shared, conns := Function.update s.conns c k },
    System.runMeets_singleton.2 hok, ?_, Function.update_self c k s.conns⟩
  rw [System.run_singleton]
  exact sessionStep_of_connStep hk

theorem Conn.running_reader {k : Conn} (h : k.running = true) {reader : ReaderHalf} {pongs : ℕ}
    (hr : reader ≠ .done) : ({ k with reader, pongs } : Conn).running = true := by
  simp [Conn.running] at h ⊢
  exact ⟨h.1, hr, h.2.2⟩

/-- With room for a `Ping` in hand, the frame in hand is handled. -/
theorem exists_hand_clear (hrun : (s.conns c).running = true)
    (howed : (s.conns c).owed [] ≤ pongCapacity) :
    ∃ es s', sessionSystem.RunMeets (OutputBranch c) s es ∧ arrivals c es = [] ∧
      sessionSystem.run s es = some s' ∧ (s'.conns c).running = true ∧
      (s'.conns c).reader = .reading := by
  cases hr : (s.conns c).reader with
  | reading => exact ⟨[], s, trivial, rfl, rfl, hrun, hr⟩
  | done => simp [Conn.running, hr] at hrun
  | got f =>
    have hhandle : ∃ shared pongs, connStep s.shared (s.conns c) .handle =
        some (shared, { s.conns c with reader := .reading, pongs }) := by
      simp only [connStep, hrun, hr, if_true]
      cases f with
      | ping =>
        have hroom : (s.conns c).pongs < pongCapacity := by
          simp [Conn.owed, hr, ReaderHalf.inHand] at howed
          omega
        exact ⟨_, _, if_pos hroom⟩
      | _ => exact ⟨_, _, rfl⟩
    obtain ⟨shared, pongs, hk⟩ := hhandle
    obtain ⟨s', hok, h, hconn⟩ := exists_run_conn hk ⟨rfl, trivial⟩
    refine ⟨_, s', hok, rfl, h, ?_, ?_⟩
    · rw [hconn]
      exact Conn.running_reader hrun (by simp)
    · rw [hconn]

/-- A reader that waits for a frame takes the next one. -/
theorem exists_recv (hrun : (s.conns c).running = true) (hr : (s.conns c).reader = .reading)
    (f : Frame) : ∃ s', sessionSystem.RunMeets (OutputBranch c) s [.conn c (.recv (some f))] ∧
      sessionSystem.run s [.conn c (.recv (some f))] = some s' ∧ (s'.conns c).running = true ∧
      (s'.conns c).reader = .got f := by
  have hk : connStep s.shared (s.conns c) (.recv (some f)) =
      some (s.shared, { s.conns c with reader := .got f }) := by
    simp only [connStep, hrun, hr, and_self, if_true]
  obtain ⟨s', hok, h, hconn⟩ := exists_run_conn hk ⟨rfl, Option.some_ne_none _⟩
  refine ⟨s', hok, h, ?_, ?_⟩
  · rw [hconn]
    exact Conn.running_reader hrun (by simp)
  · rw [hconn]

/-- With room for every `Ping`, the reader alone gets through the frames `fs`. -/
theorem exists_through (fs : List Frame) (hrun : (s.conns c).running = true)
    (howed : (s.conns c).owed fs ≤ pongCapacity) :
    ∃ es s', sessionSystem.RunMeets (OutputBranch c) s es ∧ arrivals c es = fs ∧
      sessionSystem.run s es = some s' ∧ (s'.conns c).running = true ∧
      (s'.conns c).reader = .reading := by
  induction fs generalizing s with
  | nil => exact exists_hand_clear hrun howed
  | cons f fs ih =>
    have hsplit := (s.conns c).owed_append [] (f :: fs)
    have hfirst := (s.conns c).owed_append [f] fs
    rw [List.nil_append] at hsplit
    rw [List.singleton_append] at hfirst
    obtain ⟨es₁, s₁, hok₁, harr₁, h₁, hrun₁, hr₁⟩ := exists_hand_clear hrun (by omega)
    obtain ⟨s₂, hok₂, h₂, hrun₂, -⟩ := exists_recv hrun₁ hr₁ f
    have hrecv : arrivals c [.conn c (.recv (some f))] = [f] := by simp [arrivals]
    have h₁₂ := System.run_trans h₁ h₂
    have hok₁₂ := (System.runMeets_append h₁).2 ⟨hok₁, hok₂⟩
    have hnow : (s₂.conns c).owed [] = (s.conns c).owed [f] := by
      rw [run_owed h₁₂ hok₁₂, arrivals_append, harr₁, hrecv]
      rfl
    have hrest := (s₂.conns c).owed_append [] fs
    rw [List.nil_append] at hrest
    obtain ⟨es', s', hok', harr', h', hrun', hr'⟩ := ih (s := s₂) hrun₂ (by omega)
    refine ⟨es₁ ++ [.conn c (.recv (some f))] ++ es', s',
      (System.runMeets_append h₁₂).2 ⟨hok₁₂, hok'⟩, ?_, System.run_trans h₁₂ h', hrun', hr'⟩
    rw [arrivals_append, arrivals_append, harr₁, hrecv, harr']
    rfl

theorem passes_of_owed_le {fs : List Frame} (hrun : (s.conns c).running = true)
    (howed : (s.conns c).owed fs ≤ pongCapacity) (b : List UInt8) : s.Passes c fs b := by
  obtain ⟨es, s₁, hok, harr, h₁, hrun₁, hr₁⟩ := exists_through fs hrun howed
  obtain ⟨s₂, hok₂, h₂, hrun₂, hr₂⟩ := exists_recv hrun₁ hr₁ (.data b)
  have hhand : (s₂.conns c).toPty = some (.input b) := by
    unfold Conn.toPty
    rw [hr₂]
    rfl
  refine ⟨es ++ [.conn c (.recv (some (.data b)))], s₂, _,
    (System.runMeets_append h₁).2 ⟨hok, hok₂⟩, ?_, System.run_trans h₁ h₂,
    sessionStep_of_connStep (connStep_handle_of_toPty s₂.shared hrun₂ hhand), rfl⟩
  rw [arrivals_append, harr]
  simp [arrivals]

end Passing

/-- **Output that does not pause and input.**  In every reachable state of a running connection, a
`Data` behind any frames `fs` is handed to `send_input` by the reader and by iterations of the
writer that take the output branch if and only if the channel has room for all pongs: those in it,
and those for the pings in hand and among `fs`. -/
theorem passes_iff_owed_le (s : Session) (hs : sessionSystem.Reachable s) (c : ℕ)
    (hrun : (s.conns c).running = true) (fs : List Frame) (b : List UInt8) :
    s.Passes c fs b ↔ (s.conns c).owed fs ≤ pongCapacity :=
  ⟨fun h => h.owed_le (pongs_le_of_reachable hs), fun h => passes_of_owed_le hrun h b⟩

/-- A connection that has become active. -/
def servingRun : List SessionEvent :=
  handshake 0 0 ++ [.conn 0 .fetchAdd, .conn 0 .storeConnected]

/-- A key pressed behind a heartbeat and a change of the window. -/
theorem passes_iff_owed_le_serving : ∃ s, sessionSystem.run freshSession servingRun = some s ∧
    s.Passes 0 [.ack 0, .ping, .resize 80 24] [120] :=
  ⟨_, rfl, (passes_iff_owed_le _ (System.reachable_of_run servingRun initial_freshSession rfl) 0
    rfl [.ack 0, .ping, .resize 80 24] [120]).2 (by decide)⟩

/-- Nine heartbeats arrive while the shell writes. -/
def heartbeatsRun : List SessionEvent :=
  servingRun ++ [.shellWrite [121, 10], .ptyRead 2, .ptyAppend, .ptyNotify] ++
    (List.replicate 8 [.conn 0 (.recv (some .ping)), .conn 0 .handle]).flatten ++
    [.conn 0 (.recv (some .ping))]

/-- The reader waits on the full channel and the writer has output to send: a Ctrl-C that arrives
does not get through. -/
theorem output_blocks_input : ∃ s, sessionSystem.Reachable s ∧ (s.conns 0).running = true ∧
    (s.conns 0).cursor < s.shared.ring.total ∧ sessionStep s (.conn 0 .handle) = none ∧
    ¬ s.Passes 0 [] [3] := by
  have hrun : ∃ s, sessionSystem.run freshSession heartbeatsRun = some s ∧
      (s.conns 0).running = true ∧ (s.conns 0).cursor < s.shared.ring.total ∧
      (s.conns 0).owed [] = 9 ∧ sessionStep s (.conn 0 .handle) = none :=
    ⟨_, rfl, rfl, by decide, rfl, rfl⟩
  obtain ⟨s, h, hrunning, houtput, howed, hblocked⟩ := hrun
  have hs := System.reachable_of_run heartbeatsRun initial_freshSession h
  refine ⟨s, hs, hrunning, houtput, hblocked, ?_⟩
  intro hpass
  have hle := hpass.owed_le (pongs_le_of_reachable hs)
  rw [howed] at hle
  exact absurd hle (by decide)

end Thther
