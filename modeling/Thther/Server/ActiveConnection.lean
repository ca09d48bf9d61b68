import Thther.Server.Takeover

/-!
# The active connection of a session

* `active_psk_current`: an active connection holds the current PSK, in the runs where the key is
  rotated only while no connection is active and no connection becomes active with an older key;
* `inputs_from_current`: the PTY gets input of the current connection only, in the runs where no
  input is in the hands of a superseded connection's reader.

Each comes with the other direction, a first step against the condition from which the property
fails, and with a run on which it does.
-/

namespace Thther

open Fencing (Fence Action)

/-- From `fetch_add` until `leave` has returned. -/
def ConnPhase.active : ConnPhase → Bool
  | .activating => true
  | .serving => true
  | .leaving => true
  | .clearing => true
  | _ => false

theorem ConnPhase.active_eq_true {p : ConnPhase} :
    p.active = true ↔ p.stage ≠ .out ∧ p.stage ≠ .left := by
  cases p <;> simp [ConnPhase.active, ConnPhase.stage]

/-- The connection has obtained the current epoch and has not left yet. -/
def Session.Active (s : Session) (c : ℕ) : Prop :=
  (s.conns c).phase.active = true ∧ (s.conns c).epoch = s.shared.activeEpoch

/-- The connection has obtained the current epoch, and may have left. -/
def Session.Holder (s : Session) (c : ℕ) : Prop :=
  ((s.conns c).phase.active = true ∨ (s.conns c).phase = .left) ∧
    (s.conns c).epoch = s.shared.activeEpoch

theorem fence_active {t : Session × History} {c : ℕ} :
    (Session.fence t).Active c ↔ t.1.Active c := by
  rw [Session.Active, ConnPhase.active_eq_true]
  exact ⟨fun ⟨⟨h1, h2⟩, h3⟩ => ⟨⟨h1, h3⟩, h2⟩, fun ⟨⟨h1, h3⟩, h2⟩ => ⟨⟨h1, h2⟩, h3⟩⟩

theorem fence_holder {t : Session × History} {c : ℕ} :
    (Session.fence t).Holder c ↔ t.1.Holder c := by
  have hstage : (t.1.conns c).phase.stage ≠ .out ↔
      (t.1.conns c).phase.active = true ∨ (t.1.conns c).phase = .left := by
    cases (t.1.conns c).phase <;> simp [ConnPhase.active, ConnPhase.stage]
  exact and_congr_left' hstage

/-- The steps of a connection's handshake, up to `become_active`. -/
def handshake (c : ℕ) (offset : UInt64) : List SessionEvent :=
  [.recvHello offset, .lookup true, .checkLive, .readPsk, .readTotal, .reply true,
    .openHello (some .hello), .greet true].map (.conn c)

/-- A session with an empty ring of two bytes. -/
def freshSession : Session :=
  Session.new (SessionShared.new "00000007" 0 "/bin/sh" 2 (Vector.replicate 32 0))

theorem initial_freshSession : freshSession.Initial := ⟨_, _, _, _, _, rfl⟩

theorem initial_traced : tracedSession.init (freshSession, History.new) :=
  ⟨initial_freshSession, rfl⟩

/-! ### The key of the active connection -/

/-- Every active connection authenticated with the current PSK. -/
def Session.ActiveKeyed (s : Session) : Prop :=
  ∀ c, s.Active c → (s.conns c).psk = some s.shared.psk

/-- `rotate_psk` runs while no connection is active, and `become_active` only where no rotation
came between it and the connection's `current_psk`. -/
def RotatesApart (t : Session × History) : SessionEvent → Prop
  | .attach _ (.rotate _) => ∀ c, ¬ t.1.Active c
  | .conn c .fetchAdd => t.2.keyAt c = t.2.rotated.length
  | _ => True

theorem fence_keyed {t : Session × History} :
    (Session.fence t).Keyed ↔ t.1.ActiveKeyed := by
  constructor
  · intro h c hc
    obtain ⟨n, hn⟩ := h c (fence_active.2 hc)
    obtain ⟨psk, hpsk, heq⟩ := Option.map_eq_some_iff.1 hn
    rw [hpsk, (Prod.mk.inj heq).2]
    rfl
  · intro h c hc
    refine ⟨t.2.keyAt c, ?_⟩
    show (t.1.conns c).psk.map _ = _
    rw [h c (fence_active.1 hc)]
    rfl

/-- What each access asks of the fence is what its event asks of the session. -/
theorem fence_keyOk {t : Session × History} {e : SessionEvent} {a : Action ℕ Psk PtyMsg}
    (ha : e.action t = some a) (hok : RotatesApart t e) : (Session.fence t).KeyOk a := by
  cases a with
  | claim c =>
    have he : e = .conn c .fetchAdd := SessionEvent.of_action ha
    subst he
    intro n psk hcap
    obtain ⟨_, _, heq⟩ := Option.map_eq_some_iff.1 hcap
    rw [← (Prod.mk.inj heq).1]
    exact hok
  | rekey psk =>
    obtain ⟨i, rfl⟩ := SessionEvent.of_action ha
    intro c hc
    exact hok c (fence_active.1 hc)
  | _ => trivial

/-- **The active connection holds the current PSK** in every run that keeps to `RotatesApart`, and
the first step against it leaves an active connection with another key, unless a key is drawn
twice. -/
theorem active_psk_current (t : Session × History)
    (ht : tracedSession.ReachableWith RotatesApart t) :
    t.1.ActiveKeyed ∧
      ∀ e t', ¬ RotatesApart t e → tracedSession.step t e = some t' →
        (t'.2.rotated ++ [t'.1.shared.psk]).Nodup → ¬ t'.1.ActiveKeyed := by
  obtain ⟨hinv, hkeyed⟩ : (Session.fence t).Inv ∧ (Session.fence t).Keyed :=
    Fence.reachable_keyed (fence_reachable (fun _ _ _ _ _ hok _ ha => fence_keyOk ha hok) ht)
  refine ⟨fence_keyed.1 hkeyed, fun e t' hok hst hnd => ?_⟩
  have hbound := bound_of_reachable ht.reachable
  rw [← fence_keyed]
  cases e with
  | attach i e =>
    cases e with
    | rotate psk =>
      have hsim : (Session.fence t).step (.rekey psk) = some (Session.fence t') :=
        fence_simulates hbound hst
      refine hkeyed.not_keyed_step hinv (fun h => hok fun c hc => ?_) hsim hnd
      exact h c (fence_active.2 hc)
    | _ => exact absurd trivial hok
  | conn c e =>
    cases e with
    | fetchAdd =>
      have hsim : (Session.fence t).step (.claim c) = some (Session.fence t') :=
        fence_simulates hbound hst
      refine hkeyed.not_keyed_step hinv (fun h => hok ?_) hsim hnd
      -- the step is enabled, so the connection has a key
      have hp : (t.1.conns c).phase = .greeted := by
        by_contra hp
        have hs := (System.traced_step_eq_some.1 hst).1
        simp [sessionSystem, sessionStep, connStep, hp] at hs
      obtain ⟨psk, hpsk⟩ := Option.ne_none_iff_exists'.1 (hbound c (by rw [hp]; rfl))
      exact h _ psk (show (t.1.conns c).psk.map _ = _ by rw [hpsk]; rfl)
    | _ => exact absurd trivial hok
  | _ => exact absurd trivial hok

/-- An `Attach` rotates the key, and then a connection becomes active with it. -/
def reattachRun : List SessionEvent :=
  [.attach 0 (.lookup true), .attach 0 .checkEnded, .attach 0 .checkConnected,
    .attach 0 (.rotate (Vector.replicate 32 1))] ++ handshake 0 0 ++ [.conn 0 .fetchAdd]

theorem active_psk_current_reattachRun :
    ∃ t, tracedSession.run (freshSession, History.new) reattachRun = some t ∧ t.1.Active 0 ∧
      t.1.shared.psk = Vector.replicate 32 1 ∧ t.1.ActiveKeyed := by
  have hok : tracedSession.RunMeets RotatesApart (freshSession, History.new) reattachRun := by
    refine ⟨trivial, trivial, trivial, ?_, trivial, trivial, trivial, trivial,
      trivial, trivial, trivial, trivial, ?_, trivial⟩
    · exact fun _ hc => nomatch hc.1
    · exact Eq.refl 1
  have hrun : tracedSession.run (freshSession, History.new) reattachRun = some _ := rfl
  exact ⟨_, hrun, ⟨rfl, rfl⟩, rfl,
    (active_psk_current _ ((System.ReachableWith.init initial_traced).run_meets hok hrun)).1⟩

/-- The key is rotated between a connection's `current_psk` and its `become_active`. -/
def staleKeyRun : List SessionEvent :=
  handshake 0 0 ++ [.attach 0 (.lookup true), .attach 0 .checkEnded, .attach 0 .checkConnected,
    .attach 0 (.rotate (Vector.replicate 32 1)), .conn 0 .fetchAdd]

/-- A connection becomes active with a key that an `Attach` has replaced. -/
theorem not_active_psk_current :
    ¬ ∀ s, sessionSystem.Reachable s → s.ActiveKeyed := by
  intro h
  have hrun : ∃ s, sessionSystem.run freshSession staleKeyRun = some s ∧ s.Active 0 ∧
      (s.conns 0).psk = some (Vector.replicate 32 0) ∧ s.shared.psk = Vector.replicate 32 1 :=
    ⟨_, rfl, ⟨rfl, rfl⟩, rfl, rfl⟩
  obtain ⟨s, hs, hact, hold, hnew⟩ := hrun
  have := h s (System.reachable_of_run staleKeyRun initial_freshSession hs) 0 hact
  rw [hold, hnew] at this
  exact absurd this (by decide)

/-! ### The input of the active connection -/

/-- The messages to the PTY, in order, are the inputs recorded; each comes from the connection
whose epoch was current, so that none of an older connection comes after one of a newer. -/
structure InputsInOrder (t : Session × History) : Prop where
  queue : t.2.inputs.map Fencing.Use.message = t.1.shared.toPty
  current : ∀ u ∈ t.2.inputs, u.ticket = u.epoch
  sorted : t.2.inputs.Pairwise fun u v => u.ticket ≤ v.ticket

/-- No `Data` or `Resize` frame is in the hands of a superseded connection's `server_reader`: none
at the takeover, and `read_frame` returns none to it afterwards. -/
def HandsEmpty (s : Session) : SessionEvent → Prop
  | .conn c (.recv (some f)) => f.toPty ≠ none → s.shared.isCurrent (s.conns c).epoch = true
  | .conn d .fetchAdd => ∀ c, c ≠ d → (s.conns c).running = true → (s.conns c).toPty = none
  | _ => True

/-- Whatever input a running connection has in hand, it has the current epoch. -/
def Session.HandsCurrent (s : Session) : Prop :=
  ∀ c, (s.conns c).running = true → (s.conns c).toPty ≠ none →
    (s.conns c).epoch = s.shared.activeEpoch

/-- A running connection has input in hand since its last `recv`. -/
theorem connStep_hands {shared shared' : SessionShared} {k k' : Conn} {e : ConnEvent}
    (h : connStep shared k e = some (shared', k')) (hrun : k'.running = true)
    (hin : k'.toPty ≠ none) :
    (k.running = true ∧ k.toPty ≠ none) ∨ ∃ f, e = .recv (some f) ∧ f.toPty ≠ none := by
  cases e with
  | recv f =>
    simp only [connStep] at h
    split_ifs at h
    cases f with
    | none => cases h; simp [Conn.running] at hrun
    | some f => cases h; exact Or.inr ⟨f, rfl, hin⟩
  | handle =>
    -- the frame in hand is dealt with
    obtain ⟨-, ⟨m, -, -, rfl⟩ | ⟨-, -, pongs, rfl⟩⟩ := connStep_handle h
    · exact absurd rfl hin
    · exact absurd rfl hin
  | drain =>
    simp only [connStep] at h
    split_ifs at h with hp
    split at h
    · cases h; exact Or.inl ⟨hp.1, hin⟩
    · cases h; exact Or.inl ⟨hp.1, hin⟩
  | send ok =>
    simp only [connStep] at h
    split_ifs at h with hp
    all_goals
      split at h
      · cases h; exact Or.inl ⟨hp, hin⟩
      · cases h
  | storeConnected =>
    simp only [connStep] at h
    split_ifs at h
    cases h
    exact absurd rfl hin
  | _ =>
    -- a step of `server_writer`, or the result is not running
    simp only [connStep] at h
    split_ifs at h with hp
    all_goals
      cases h
      first
        | exact Or.inl ⟨hp.1, hin⟩
        | simp [Conn.running] at hrun

theorem ConnQuiet.conn_epoch {shared shared' : SessionShared} {k k' : Conn}
    (h : ConnQuiet shared shared' k k') : k'.epoch = k.epoch :=
  congrArg Fencing.Client.ticket (h.client 0)

/-- A step after which the connection runs leaves both epochs. -/
theorem connStep_epoch {shared shared' : SessionShared} {k k' : Conn} {e : ConnEvent}
    (h : connStep shared k e = some (shared', k')) (hrun : k'.running = true) :
    k'.epoch = k.epoch ∧ shared'.activeEpoch = shared.activeEpoch := by
  cases connStep_cases h with
  | quiet e shared' k' _ hq => exact ⟨hq.conn_epoch, hq.epoch⟩
  | fetchAdd hp => simp [Conn.running] at hrun
  | _ => exact ⟨rfl, rfl⟩

/-- Only `fetch_add` changes the epoch of the session. -/
theorem connStep_activeEpoch {shared shared' : SessionShared} {k k' : Conn} {e : ConnEvent}
    (h : connStep shared k e = some (shared', k')) (he : e ≠ .fetchAdd) :
    shared'.activeEpoch = shared.activeEpoch := by
  cases connStep_cases h with
  | quiet e shared' k' _ hq => exact hq.epoch
  | fetchAdd hp => exact absurd rfl he
  | _ => rfl

theorem Session.HandsCurrent.step {s s' : Session} {e : SessionEvent} (h : s.HandsCurrent)
    (hok : HandsEmpty s e) (hs : sessionStep s e = some s') : s'.HandsCurrent := by
  cases sessionStep_cases hs with
  | background e s' _ hb =>
    intro c hrun hin
    rw [hb.epoch]
    rcases hb.conns c with hc | hc
    · rw [hc] at hrun hin ⊢
      exact h c hrun hin
    · rw [hc] at hrun hin ⊢
      exact h c hrun hin
  | rotate i psk _ => exact h
  | conn c e shared k hc =>
    refine forall_update (P := fun _ k => k.running = true → k.toPty ≠ none →
      k.epoch = shared.activeEpoch) (fun d hdc hrun hin => ?_) fun hrun hin => ?_
    · by_cases he : e = .fetchAdd
      · subst he
        exact absurd (hok d hdc hrun) hin
      · rw [connStep_activeEpoch hc he]
        exact h d hrun hin
    · obtain ⟨hepoch, hactive⟩ := connStep_epoch hc hrun
      rw [hepoch, hactive]
      rcases connStep_hands hc hrun hin with ⟨hrun, hin⟩ | ⟨f, rfl, hf⟩
      · exact h c hrun hin
      · exact (SessionShared.isCurrent_eq_true.1 (hok hf)).symm

theorem handsCurrent_of_handsEmpty {t : Session × History}
    (ht : tracedSession.ReachableWith (fun t e => HandsEmpty t.1 e) t) : t.1.HandsCurrent := by
  refine System.invariant_with (I := fun t => t.1.HandsCurrent) (fun t hi => ?_)
    (fun t e t' h hok hst => h.step hok (System.traced_step_eq_some.1 hst).1) ht
  obtain ⟨⟨_, _, _, _, _, hs⟩, -⟩ := hi
  rw [hs]
  intro c hrun
  cases hrun

/-- The messages to the PTY are the inputs recorded, in every run. -/
theorem queue_eq_inputs {t : Session × History} (ht : tracedSession.Reachable t) :
    t.2.inputs.map Fencing.Use.message = t.1.shared.toPty := by
  refine System.invariant (I := fun t => t.2.inputs.map Fencing.Use.message = t.1.shared.toPty)
    (fun t hi => ?_) (fun t e t' h hst => ?_) ht
  · obtain ⟨⟨_, _, _, _, _, hs⟩, hh⟩ := hi
    rw [hs, hh]
    rfl
  · obtain ⟨s, hist⟩ := t
    obtain ⟨s', hist'⟩ := t'
    obtain ⟨hs, hh⟩ := System.traced_step_eq_some.1 hst
    dsimp only at hs hh h ⊢
    subst hh
    cases sessionStep_cases hs with
    | background e s' hsil hb => rw [hsil.inputs, hb.toPty]; exact h
    | rotate i psk _ => exact h
    | conn c e shared k hc =>
      cases connStep_cases hc with
      | quiet e shared' k' hsil hq =>
        rw [(hsil s c rfl).inputs]
        exact h.trans hq.toPty.symm
      | input m hrun hm =>
        simp only [History.record, hm, Option.map_some, Option.toList_some, List.map_append, h,
          List.map_cons, List.map_nil]
      | _ => exact h

theorem fence_useOk {t t' : Session × History} {e : SessionEvent} {a : Action ℕ Psk PtyMsg}
    (ha : e.action t = some a) (hs : tracedSession.step t e = some t')
    (hcur : t.1.HandsCurrent) : (Session.fence t).UseOk a := by
  cases a with
  | use c m =>
    obtain ⟨rfl, hm⟩ := SessionEvent.of_action ha
    refine hcur c ?_ (by rw [hm]; exact Option.some_ne_none _)
    by_contra hrun
    have hs := (System.traced_step_eq_some.1 hs).1
    simp [sessionSystem, sessionStep, connStep, hrun] at hs
  | _ => trivial

theorem inputs_of_handsEmpty {t : Session × History}
    (ht : tracedSession.ReachableWith (fun t e => HandsEmpty t.1 e) t) : InputsInOrder t := by
  have hcurrent : ∀ u ∈ t.2.inputs, u.ticket = u.epoch :=
    Fence.epoch_of_use (fence_reachable (fun t e t' a ht _ hst ha =>
      fence_useOk ha hst (handsCurrent_of_handsEmpty ht)) ht)
  have hordered : (Session.fence t).Ordered :=
    Fence.reachable_ordered (fence_reachable (fun _ _ _ _ _ _ _ _ => trivial) ht)
  refine ⟨queue_eq_inputs ht.reachable, hcurrent, ?_⟩
  refine hordered.sorted.imp_of_mem fun hu hv hle => ?_
  rw [hcurrent _ hu, hcurrent _ hv]
  exact hle

/-- A superseded connection's input goes to the PTY with the next step of its reader. -/
theorem not_inputsInOrder_handle {t : Session × History} {c : ℕ}
    (hrun : (t.1.conns c).running = true) (hin : (t.1.conns c).toPty ≠ none)
    (hne : (t.1.conns c).epoch ≠ t.1.shared.activeEpoch) :
    ∃ t', tracedSession.step t (.conn c .handle) = some t' ∧ ¬ InputsInOrder t' := by
  obtain ⟨m, hm⟩ := Option.ne_none_iff_exists'.1 hin
  obtain ⟨s', hs'⟩ : ∃ s', sessionSystem.step t.1 (.conn c .handle) = some s' := by
    have hc := connStep_handle_of_toPty t.1.shared hrun hm
    simp only [sessionSystem, sessionStep, hc]
    exact ⟨_, rfl⟩
  refine ⟨(s', History.record t.1 t.2 (.conn c .handle)),
    System.traced_step_eq_some.2 ⟨hs', rfl⟩, fun h => hne ?_⟩
  refine h.current ⟨(t.1.conns c).epoch, t.1.shared.activeEpoch, m⟩ ?_
  simp only [History.record, hm, Option.map_some, Option.toList_some]
  exact List.mem_append_right _ (List.mem_singleton_self _)

/-- **All input comes from the current connection** in every run that keeps to `HandsEmpty`, and
after the first step against it the next step of a superseded connection's reader sends input. -/
theorem inputs_from_current (t : Session × History)
    (ht : tracedSession.ReachableWith (fun t e => HandsEmpty t.1 e) t) :
    InputsInOrder t ∧
      ∀ e t', ¬ HandsEmpty t.1 e → tracedSession.step t e = some t' →
        ∃ c t'', tracedSession.step t' (.conn c .handle) = some t'' ∧ ¬ InputsInOrder t'' := by
  refine ⟨inputs_of_handsEmpty ht, fun e t' hok hst => ?_⟩
  have hinv : (Session.fence t).Inv := fence_inv ht
  obtain ⟨hs, -⟩ := System.traced_step_eq_some.1 hst
  cases e with
  | conn c e =>
    cases e with
    | recv f =>
      cases f with
      | none => exact absurd trivial hok
      | some f =>
        simp only [HandsEmpty, Classical.not_imp] at hok
        obtain ⟨hf, hcur⟩ := hok
        obtain ⟨shared, k, hc, hs⟩ := sessionStep_conn hs
        simp only [connStep] at hc
        split_ifs at hc with hp
        cases hc
        refine ⟨c, not_inputsInOrder_handle (c := c) ?_ ?_ ?_⟩
        · rw [hs]
          have hrun := hp.1
          simp only [Conn.running, decide_eq_true_eq] at hrun
          simp [Conn.running, hrun.1, hrun.2.2]
        · rw [hs]
          simpa [Conn.toPty] using hf
        · rw [hs]
          simp only [Function.update_self]
          exact fun heq => hcur (SessionShared.isCurrent_eq_true.2 heq.symm)
    | fetchAdd =>
      simp only [HandsEmpty, not_forall] at hok
      obtain ⟨d, hdc, hrun, hin⟩ := hok
      obtain ⟨shared, k, hc, hs⟩ := sessionStep_conn hs
      simp only [connStep] at hc
      split_ifs at hc
      cases hc
      -- the older connection had at most the epoch of before
      have hle : (t.1.conns d).epoch ≤ t.1.shared.activeEpoch := (hinv.client d).ticket_le (by
        show (t.1.conns d).phase.stage ≠ .out
        rw [Conn.phase_of_running hrun]
        simp [ConnPhase.stage])
      refine ⟨d, not_inputsInOrder_handle (c := d) ?_ ?_ ?_⟩
      · rw [hs]
        simpa [hdc] using hrun
      · rw [hs]
        simpa [hdc] using hin
      · rw [hs]
        simp only [Function.update_of_ne hdc, SessionShared.fetchAddEpoch]
        omega
    | _ => exact absurd trivial hok
  | _ => exact absurd trivial hok

/-- Input on a connection that is current, and on the one that takes over from it. -/
def currentInputRun : List SessionEvent :=
  handshake 0 0 ++ [.conn 0 .fetchAdd, .conn 0 .storeConnected,
    .conn 0 (.recv (some (.data [1]))), .conn 0 .handle] ++
    handshake 1 0 ++ [.conn 1 .fetchAdd, .conn 1 .storeConnected,
      .conn 1 (.recv (some (.data [2]))), .conn 1 .handle]

theorem inputs_from_current_currentInputRun :
    ∃ t, tracedSession.run (freshSession, History.new) currentInputRun = some t ∧
      t.2.inputs = [⟨1, 1, .input [1]⟩, ⟨2, 2, .input [2]⟩] ∧ InputsInOrder t := by
  have hok : tracedSession.RunMeets (fun t e => HandsEmpty t.1 e) (freshSession, History.new)
      currentInputRun := by
    refine ⟨trivial, trivial, trivial, trivial, trivial, trivial, trivial, trivial, ?_, trivial,
      fun _ => rfl, trivial, trivial, trivial, trivial, trivial, trivial, trivial, trivial, trivial,
      ?_, trivial, fun _ => rfl, trivial, trivial⟩
    · -- the other connections are where they were
      rintro (_ | c) hc hrun
      · exact absurd rfl hc
      · exact nomatch hrun
    · -- the first one has nothing in its hands
      rintro (_ | _ | c) hc hrun
      · rfl
      · exact absurd rfl hc
      · exact nomatch hrun
  have hrun : tracedSession.run (freshSession, History.new) currentInputRun = some _ := rfl
  exact ⟨_, hrun, rfl,
    (inputs_from_current _ ((System.ReachableWith.init initial_traced).run_meets hok hrun)).1⟩

/-- A connection is superseded, and then a frame on it arrives. -/
def lateInputRun : List SessionEvent :=
  handshake 0 0 ++ [.conn 0 .fetchAdd, .conn 0 .storeConnected] ++
    handshake 1 0 ++ [.conn 1 .fetchAdd, .conn 1 .storeConnected,
      .conn 0 (.recv (some (.data [1]))), .conn 0 .handle]

/-- A superseded connection sends input to the PTY. -/
theorem not_inputs_from_current : ¬ ∀ t, tracedSession.Reachable t → InputsInOrder t := by
  intro h
  have hrun : ∃ t, tracedSession.run (freshSession, History.new) lateInputRun = some t ∧
      t.2.inputs = [⟨1, 2, .input [1]⟩] := ⟨_, rfl, rfl⟩
  obtain ⟨t, ht, hin⟩ := hrun
  have := (h t (System.reachable_of_run lateInputRun initial_traced ht)).current
  rw [hin] at this
  exact absurd (this _ (List.mem_singleton_self _)) (by decide)

end Thther
