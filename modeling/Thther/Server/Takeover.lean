import Thther.Lib.Fencing
import Thther.Server.Session

/-!
# Takeover of a session by its connections

`Session.fence` reads a session as a resource under an epoch counter: the epoch is
`active_epoch`, the flag `connected`, the key the PSK, the uses are the messages to the PTY and the
clients the connections.  `fence_simulates` says that every step of the session is a step of the
fence or none; by `fence_reachable` the results about fences become results about the session.
-/

namespace Thther

open Fencing (Fence Stage Client Action)

/-- The phases of a connection, as stages of a client. -/
def ConnPhase.stage : ConnPhase → Stage
  | .activating => .claiming
  | .serving => .holding
  | .leaving => .holding
  | .clearing => .clearing
  | .left => .left
  | _ => .out

/-- A connection that captured its key when `n` keys had been replaced, as a client. -/
def Conn.client (k : Conn) (n : ℕ) : Client Psk where
  stage := k.phase.stage
  ticket := k.epoch
  captured := k.psk.map fun psk => (n, psk)

/-- The session as a fenced resource. -/
def Session.fence (t : Session × History) : Fence ℕ Psk PtyMsg where
  epoch := t.1.shared.activeEpoch
  flag := t.1.shared.connected
  key := t.1.shared.psk
  retired := t.2.rotated
  uses := t.2.inputs
  clients c := (t.1.conns c).client (t.2.keyAt c)

/-- The access to the resource that an event makes. -/
def SessionEvent.action (t : Session × History) : SessionEvent → Option (Action ℕ Psk PtyMsg)
  | .attach _ (.rotate psk) => some (.rekey psk)
  | .conn c .readPsk => some (.capture c)
  | .conn c .fetchAdd => some (.claim c)
  | .conn c .storeConnected => some (.announce c)
  | .conn c .leaveLoad => some (.check c)
  | .conn c .leaveStore => some (.clear c)
  | .conn c .handle => (t.1.conns c).toPty.map (.use c)
  | _ => none

/-- The event behind an access. -/
theorem SessionEvent.of_action {t : Session × History} {e : SessionEvent}
    {a : Action ℕ Psk PtyMsg} (h : e.action t = some a) :
    match a with
    | .capture c => e = .conn c .readPsk
    | .claim c => e = .conn c .fetchAdd
    | .announce c => e = .conn c .storeConnected
    | .check c => e = .conn c .leaveLoad
    | .clear c => e = .conn c .leaveStore
    | .use c m => e = .conn c .handle ∧ (t.1.conns c).toPty = some m
    | .rekey psk => ∃ i, e = .attach i (.rotate psk) := by
  cases e with
  | attach i e =>
    cases e with
    | rotate psk => cases h; exact ⟨i, rfl⟩
    | _ => cases h
  | conn c e =>
    cases e with
    | handle =>
      obtain ⟨m, hm, rfl⟩ := Option.map_eq_some_iff.1 h
      exact ⟨rfl, hm⟩
    | _ => cases h <;> rfl
  | _ => cases h

/-! ### Steps without an access -/

/-- `current_psk` has been read. -/
def ConnPhase.hasPsk : ConnPhase → Bool
  | .accepted => false
  | .received => false
  | .found => false
  | .admitted => false
  | .refused _ => false
  | .closed => false
  | .keyed | .sized | .replied | .authenticated | .greeted => true
  | .activating | .serving | .leaving | .clearing | .left => true

/-- The event makes no access, and the history of the accesses stays. -/
structure SessionEvent.Silent (s : Session) (e : SessionEvent) : Prop where
  action : ∀ h, e.action (s, h) = none
  rotated : ∀ h, (History.record s h e).rotated = h.rotated
  keyAt : ∀ h, (History.record s h e).keyAt = h.keyAt
  inputs : ∀ h, (History.record s h e).inputs = h.inputs

/-- What a step of a connection leaves alone when it makes no access to the resource. -/
structure ConnQuiet (shared shared' : SessionShared) (k k' : Conn) : Prop where
  epoch : shared'.activeEpoch = shared.activeEpoch
  connected : shared'.connected = shared.connected
  psk : shared'.psk = shared.psk
  toPty : shared'.toPty = shared.toPty
  client : ∀ n, k'.client n = k.client n
  bound : (k.phase.hasPsk = true → k.psk ≠ none) → k'.phase.hasPsk = true → k'.psk ≠ none

/-- What a step of a connection can do: make one of the accesses, or none. -/
inductive ConnStepped (shared : SessionShared) (k : Conn) :
    ConnEvent → SessionShared → Conn → Prop
  | quiet (e : ConnEvent) (shared' : SessionShared) (k' : Conn) :
      (∀ s c, s.conns c = k → (SessionEvent.conn c e).Silent s) →
      ConnQuiet shared shared' k k' → ConnStepped shared k e shared' k'
  | readPsk : k.phase = .admitted →
      ConnStepped shared k .readPsk shared { k with phase := .keyed, psk := some shared.psk }
  | fetchAdd : k.phase = .greeted →
      ConnStepped shared k .fetchAdd { shared with activeEpoch := shared.activeEpoch + 1 }
        { k with phase := .activating, epoch := shared.activeEpoch + 1 }
  | storeConnected : k.phase = .activating →
      ConnStepped shared k .storeConnected (shared.storeConnected true) { k with
        phase := .serving, reader := .reading, pongs := 0, writer := .checking,
        cursor := k.offset, enabled := false, woken := false, sent := [] }
  | leaveLoad : k.phase = .leaving →
      ConnStepped shared k .leaveLoad shared
        { k with phase := if shared.isCurrent k.epoch then .clearing else .left }
  | leaveStore : k.phase = .clearing →
      ConnStepped shared k .leaveStore (shared.storeConnected false) { k with phase := .left }
  | input (m : PtyMsg) : k.running = true → k.toPty = some m →
      ConnStepped shared k .handle { shared with toPty := shared.toPty ++ [m] }
        { k with reader := .reading }

/-- A step within a phase. -/
theorem ConnQuiet.of_phase {shared : SessionShared} {k k' : Conn} (hs : k'.phase = k.phase)
    (he : k'.epoch = k.epoch) (hp : k'.psk = k.psk) : ConnQuiet shared shared k k' := by
  refine ⟨rfl, rfl, rfl, rfl, fun n => ?_, fun hb hk => ?_⟩
  · simp only [Conn.client, hs, he, hp]
  · rw [hp]
    exact hb (by rw [← hs]; exact hk)

/-- A step from a phase to the next of the same stage. -/
theorem ConnQuiet.of_stage {shared : SessionShared} {k : Conn} {p : ConnPhase} {o total : UInt64}
    (hs : p.stage = k.phase.stage) (hb : p.hasPsk = true → k.phase.hasPsk = true) :
    ConnQuiet shared shared k { k with phase := p, offset := o, total } := by
  refine ⟨rfl, rfl, rfl, rfl, fun n => ?_, fun hk hp => hk (hb hp)⟩
  simp only [Conn.client, hs]

theorem connStep_cases {shared shared' : SessionShared} {k k' : Conn} {e : ConnEvent}
    (h : connStep shared k e = some (shared', k')) : ConnStepped shared k e shared' k' := by
  cases e with
  | readPsk =>
    simp only [connStep] at h
    split_ifs at h with hp
    cases h; exact .readPsk hp
  | fetchAdd =>
    simp only [connStep] at h
    split_ifs at h with hp
    cases h; exact .fetchAdd hp
  | storeConnected =>
    simp only [connStep] at h
    split_ifs at h with hp
    cases h; exact .storeConnected hp
  | leaveLoad =>
    simp only [connStep] at h
    by_cases hp : k.phase = .leaving
    · rw [if_pos hp] at h
      cases h; exact .leaveLoad hp
    · rw [if_neg hp] at h; cases h
  | leaveStore =>
    simp only [connStep] at h
    split_ifs at h with hp
    cases h; exact .leaveStore hp
  | handle =>
    obtain ⟨hrun, ⟨m, hm, rfl, rfl⟩ | ⟨hnone, rfl, pongs, rfl⟩⟩ := connStep_handle h
    · exact .input m hrun hm
    · refine .quiet _ _ _ (fun s c hc => ?_) (.of_phase rfl rfl rfl)
      refine ⟨fun h => ?_, fun h => rfl, fun h => rfl, fun h => ?_⟩
      · simp only [SessionEvent.action, hc, hnone, Option.map_none]
      · simp only [History.record, hc, hnone, Option.map_none, Option.toList_none,
          List.append_nil]
  | drain =>
    refine .quiet _ _ _ (fun _ _ _ => ⟨fun _ => rfl, fun _ => rfl, fun _ => rfl, fun _ => rfl⟩) ?_
    simp only [connStep] at h
    split_ifs at h
    split at h
    · cases h; exact .of_phase rfl rfl rfl
    · cases h; exact .of_phase rfl rfl rfl
  | send ok =>
    refine .quiet _ _ _ (fun _ _ _ => ⟨fun _ => rfl, fun _ => rfl, fun _ => rfl, fun _ => rfl⟩) ?_
    simp only [connStep] at h
    split_ifs at h
    all_goals
      split at h
      · cases h; exact .of_phase rfl rfl rfl
      · cases h
  | _ =>
    -- a half of the running connection, or a phase before `become_active`
    refine .quiet _ _ _ (fun _ _ _ => ⟨fun _ => rfl, fun _ => rfl, fun _ => rfl, fun _ => rfl⟩) ?_
    simp only [connStep] at h
    split_ifs at h with hp
    all_goals
      cases h
      first
        | exact .of_phase rfl rfl rfl
        | exact .of_stage (by simp only [hp]; rfl) (by simp [hp, ConnPhase.hasPsk])

/-! ### Every step is an access or none -/

/-- Every connection past `current_psk` has its key. -/
def Session.Bound (s : Session) : Prop :=
  ∀ c, (s.conns c).phase.hasPsk = true → (s.conns c).psk ≠ none

theorem forall_update {P : ℕ → Conn → Prop} {conns : ℕ → Conn} {c : ℕ} {k : Conn}
    (h : ∀ d, d ≠ c → P d (conns d)) (hk : P c k) : ∀ d, P d (Function.update conns c k d) := by
  intro d
  by_cases hd : d = c
  · subst hd
    rwa [Function.update_self]
  · rw [Function.update_of_ne hd]
    exact h d hd

/-- The clients after one connection has changed. -/
theorem clients_update (conns : ℕ → Conn) (keyAt : ℕ → ℕ) (c : ℕ) (k : Conn) (n : ℕ) :
    (fun d => (Function.update conns c k d).client (Function.update keyAt c n d)) =
      Function.update (fun d => (conns d).client (keyAt d)) c (k.client n) := by
  funext d
  by_cases hd : d = c
  · subst hd
    simp only [Function.update_self]
  · simp only [Function.update_of_ne hd]

theorem clients_update_conn (conns : ℕ → Conn) (keyAt : ℕ → ℕ) (c : ℕ) (k : Conn) :
    (fun d => (Function.update conns c k d).client (keyAt d)) =
      Function.update (fun d => (conns d).client (keyAt d)) c (k.client (keyAt c)) := by
  have h := clients_update conns keyAt c k (keyAt c)
  rwa [Function.update_eq_self] at h

/-- A step of the shell, of a thread of the session, or of an `Attach` short of `rotate_psk`. -/
structure Background (s s' : Session) : Prop where
  epoch : s'.shared.activeEpoch = s.shared.activeEpoch
  connected : s'.shared.connected = s.shared.connected
  psk : s'.shared.psk = s.shared.psk
  toPty : s'.shared.toPty = s.shared.toPty
  conns : ∀ c, s'.conns c = s.conns c ∨ s'.conns c = (s.conns c).wake

/-- What a step of the session can do. -/
inductive SessionStepped (s : Session) : SessionEvent → Session → Prop
  | background (e : SessionEvent) (s' : Session) : e.Silent s → Background s s' →
      SessionStepped s e s'
  | rotate (i : ℕ) (psk : Psk) : s.attaches i = .free →
      SessionStepped s (.attach i (.rotate psk))
        { s with
          shared := s.shared.rotatePsk psk
          attaches := Function.update s.attaches i (.rotated psk) }
  | conn (c : ℕ) (e : ConnEvent) (shared : SessionShared) (k : Conn) :
      connStep s.shared (s.conns c) e = some (shared, k) →
      SessionStepped s (.conn c e) { s with shared, conns := Function.update s.conns c k }

theorem sessionStep_cases {s s' : Session} {e : SessionEvent} (h : sessionStep s e = some s') :
    SessionStepped s e s' := by
  cases e with
  | attach i e =>
    cases ha : attachStep s.shared (s.attaches i) e with
    | none => simp [sessionStep, ha] at h
    | some r =>
      obtain ⟨shared, a⟩ := r
      simp only [sessionStep, ha, Option.some.injEq] at h
      subst h
      cases e with
      | rotate psk =>
        simp only [attachStep] at ha
        split_ifs at ha with hp
        cases ha; exact .rotate i psk hp
      | _ =>
        refine .background _ _ ⟨fun _ => rfl, fun _ => rfl, fun _ => rfl, fun _ => rfl⟩ ?_
        simp only [attachStep] at ha
        split_ifs at ha
        all_goals cases ha; exact ⟨rfl, rfl, rfl, rfl, fun c => Or.inl rfl⟩
  | conn c e =>
    obtain ⟨shared, k, hc, rfl⟩ := sessionStep_conn h
    exact .conn c e shared k hc
  | mark t =>
    refine .background _ _ ⟨fun _ => rfl, fun _ => rfl, fun _ => rfl, fun _ => rfl⟩ ?_
    simp only [sessionStep] at h
    split_ifs at h with hp hn
    all_goals
      split at h
      · cases h
      · cases h
        first
          | exact ⟨rfl, rfl, rfl, rfl, fun c => Or.inr rfl⟩
          | exact ⟨rfl, rfl, rfl, rfl, fun c => Or.inl rfl⟩
  | ptyAppend =>
    refine .background _ _ ⟨fun _ => rfl, fun _ => rfl, fun _ => rfl, fun _ => rfl⟩ ?_
    simp only [sessionStep] at h
    split at h
    · cases h; exact ⟨rfl, rfl, rfl, rfl, fun c => Or.inl rfl⟩
    · cases h
  | ptyNotify =>
    refine .background _ _ ⟨fun _ => rfl, fun _ => rfl, fun _ => rfl, fun _ => rfl⟩ ?_
    simp only [sessionStep] at h
    split_ifs at h
    cases h; exact ⟨rfl, rfl, rfl, rfl, fun c => Or.inr rfl⟩
  | _ =>
    refine .background _ _ ⟨fun _ => rfl, fun _ => rfl, fun _ => rfl, fun _ => rfl⟩ ?_
    simp only [sessionStep] at h
    split_ifs at h
    all_goals cases h; exact ⟨rfl, rfl, rfl, rfl, fun c => Or.inl rfl⟩

/-- What a step does to one connection. -/
theorem sessionStep_conn_cases {s s' : Session} {e : SessionEvent}
    (h : sessionStep s e = some s') (c : ℕ) :
    ((∀ e', e ≠ .conn c e') ∧ (s'.conns c = s.conns c ∨ s'.conns c = (s.conns c).wake)) ∨
      ∃ e', e = .conn c e' ∧ connStep s.shared (s.conns c) e' = some (s'.shared, s'.conns c) := by
  by_cases he : ∃ e', e = .conn c e'
  · obtain ⟨e', rfl⟩ := he
    obtain ⟨shared, k, hk, rfl⟩ := sessionStep_conn h
    refine Or.inr ⟨e', rfl, ?_⟩
    rw [hk]
    simp only [Function.update_self]
  · refine Or.inl ⟨fun e' heq => he ⟨e', heq⟩, ?_⟩
    cases sessionStep_cases h with
    | background e s' _ hb => exact hb.conns c
    | rotate i psk _ => exact Or.inl rfl
    | conn d e shared k hk =>
      exact Or.inl (Function.update_of_ne (fun hcd => he ⟨e, by rw [hcd]⟩) _ _)

theorem Session.Bound.step {s s' : Session} {e : SessionEvent} (h : s.Bound)
    (hs : sessionStep s e = some s') : s'.Bound := by
  cases sessionStep_cases hs with
  | background e s' _ hb =>
    intro c
    rcases hb.conns c with hc | hc
    · rw [hc]; exact h c
    · rw [hc]; exact h c
  | rotate i psk _ => exact h
  | conn c e shared k hc =>
    refine forall_update (P := fun _ k => k.phase.hasPsk = true → k.psk ≠ none)
      (fun d _ => h d) ?_
    cases connStep_cases hc with
    | quiet e shared' k' _ hq => exact hq.bound (h c)
    | readPsk hp => exact fun _ => Option.some_ne_none _
    | fetchAdd hp => exact fun _ => h c (by rw [hp]; rfl)
    | storeConnected hp => exact fun _ => h c (by rw [hp]; rfl)
    | leaveLoad hp => exact fun _ => h c (by rw [hp]; rfl)
    | leaveStore hp => exact fun _ => h c (by rw [hp]; rfl)
    | input m _ _ => exact h c

/-- **The session refines the fence**: every step is the access its event makes, or leaves the
fence as it was. -/
theorem fence_simulates {t t' : Session × History} {e : SessionEvent} (hb : t.1.Bound)
    (h : tracedSession.step t e = some t') :
    (Fencing.system ℕ Psk PtyMsg).StepOrStay (Session.fence t) (e.action t)
      (Session.fence t') := by
  obtain ⟨s, hist⟩ := t
  obtain ⟨s', hist'⟩ := t'
  obtain ⟨hs, hh⟩ := System.traced_step_eq_some.1 h
  dsimp only at hs hh hb
  subst hh
  cases sessionStep_cases hs with
  | background e s' hsil hbg =>
    rw [hsil.action, System.StepOrStay]
    have hclients : ∀ c, (s'.conns c).client (hist.keyAt c) =
        (s.conns c).client (hist.keyAt c) := by
      intro c
      rcases hbg.conns c with hc | hc
      · rw [hc]
      · rw [hc]; rfl
    simp only [Session.fence, hbg.epoch, hbg.connected, hbg.psk, hsil.rotated, hsil.keyAt,
      hsil.inputs, hclients]
  | rotate i psk _ => rfl
  | conn c e shared k hc =>
    cases connStep_cases hc with
    | quiet e shared' k' hsil hq =>
      have hsil := hsil s c rfl
      rw [hsil.action, System.StepOrStay]
      simp only [Session.fence, hq.epoch, hq.connected, hq.psk, hsil.rotated, hsil.keyAt,
        hsil.inputs]
      rw [clients_update_conn, hq.client, Function.update_eq_self]
    | readPsk hp =>
      have hout : ((s.conns c).client (hist.keyAt c)).stage = .out := by rw [Conn.client, hp]; rfl
      refine (if_pos hout).trans (congrArg some ?_)
      simp only [Session.fence, Fence.set, History.record, clients_update]
      rw [hout]
      rfl
    | fetchAdd hp =>
      have hout : ((s.conns c).client (hist.keyAt c)).stage = .out ∧
          ((s.conns c).client (hist.keyAt c)).captured ≠ none := by
        refine ⟨by rw [Conn.client, hp]; rfl, ?_⟩
        have := hb c (by rw [hp]; rfl)
        simpa [Conn.client] using this
      refine (if_pos hout).trans (congrArg some ?_)
      simp only [Session.fence, Fence.set, History.record, clients_update_conn]
      rfl
    | storeConnected hp =>
      have hst : ((s.conns c).client (hist.keyAt c)).stage = .claiming := by
        rw [Conn.client, hp]; rfl
      refine (if_pos hst).trans (congrArg some ?_)
      simp only [Session.fence, Fence.set, History.record, clients_update_conn]
      rfl
    | leaveLoad hp =>
      have hst : ((s.conns c).client (hist.keyAt c)).stage = .holding := by
        rw [Conn.client, hp]; rfl
      refine (if_pos hst).trans ?_
      by_cases hcur : s.shared.activeEpoch = (s.conns c).epoch
      · refine (if_pos hcur).trans (congrArg some ?_)
        rw [if_pos (SessionShared.isCurrent_eq_true.2 hcur)]
        simp only [Session.fence, Fence.set, History.record, clients_update_conn]
        rfl
      · refine (if_neg hcur).trans (congrArg some ?_)
        rw [if_neg (fun h => hcur (SessionShared.isCurrent_eq_true.1 h))]
        simp only [Session.fence, Fence.set, History.record, clients_update_conn]
        rfl
    | leaveStore hp =>
      have hst : ((s.conns c).client (hist.keyAt c)).stage = .clearing := by
        rw [Conn.client, hp]; rfl
      refine (if_pos hst).trans (congrArg some ?_)
      simp only [Session.fence, Fence.set, History.record, clients_update_conn]
      rfl
    | input m hrun hm =>
      have hst : ((s.conns c).client (hist.keyAt c)).stage = .holding := by
        rw [Conn.client, Conn.phase_of_running hrun]; rfl
      simp only [SessionEvent.action, hm, Option.map_some]
      refine (if_pos hst).trans (congrArg some ?_)
      simp only [Session.fence, History.record, clients_update_conn, hm, Option.map_some,
        Option.toList_some]
      rw [show Conn.client { s.conns c with reader := .reading } (hist.keyAt c) =
        (s.conns c).client (hist.keyAt c) from rfl, Function.update_eq_self]
      rfl

theorem bound_of_reachable {t : Session × History} (ht : tracedSession.Reachable t) :
    t.1.Bound := by
  refine System.invariant (I := fun t => t.1.Bound) (fun t hi => ?_)
    (fun t e t' h hst => h.step (System.traced_step_eq_some.1 hst).1) ht
  obtain ⟨⟨_, _, _, _, _, hs⟩, -⟩ := hi
  rw [hs]
  exact fun c => nofun

/-- The simulation over runs: a run of the session whose accesses keep to `ok'` is a run of the
fence that does. -/
theorem fence_reachable {ok : Session × History → SessionEvent → Prop}
    {ok' : Fence ℕ Psk PtyMsg → Action ℕ Psk PtyMsg → Prop}
    (hok : ∀ t e t' a, tracedSession.ReachableWith ok t → ok t e →
      tracedSession.step t e = some t' → e.action t = some a → ok' (Session.fence t) a)
    {t : Session × History} (ht : tracedSession.ReachableWith ok t) :
    (Fencing.system ℕ Psk PtyMsg).ReachableWith ok' (Session.fence t) := by
  refine System.ReachableWith.simulate Session.fence (fun t e => e.action t) (fun t hi => ?_)
    (fun t e t' ht hst => fence_simulates (bound_of_reachable ht.reachable) hst) hok ht
  obtain ⟨⟨_, _, _, _, _, hs⟩, hh⟩ := hi
  rw [show t = (t.1, t.2) from rfl, hs, hh]
  exact ⟨rfl, rfl, rfl, rfl, fun c => rfl⟩

/-- What holds of the fence in every run holds of a session's. -/
theorem fence_inv {ok : Session × History → SessionEvent → Prop} {t : Session × History}
    (ht : tracedSession.ReachableWith ok t) : (Session.fence t).Inv :=
  Fence.reachable_inv (fence_reachable (fun _ _ _ _ _ _ _ _ => trivial) ht)

/-- `active_epoch` is 64 bits wide: up to `2 ^ 64 - 1` takeovers, a comparison with the epoch of a
connection that has become active is the comparison of the two numbers. -/
theorem isCurrent_eq_uint64 {ok : Session × History → SessionEvent → Prop} {t : Session × History}
    (ht : tracedSession.ReachableWith ok t) (hlt : t.1.shared.activeEpoch < 2 ^ 64) {c : ℕ}
    (hc : (t.1.conns c).phase.stage ≠ .out) : t.1.shared.isCurrent (t.1.conns c).epoch =
      (UInt64.ofNat t.1.shared.activeEpoch == UInt64.ofNat (t.1.conns c).epoch) := by
  have hle : (t.1.conns c).epoch ≤ t.1.shared.activeEpoch :=
    ((fence_inv ht).client c).ticket_le hc
  have hepoch := toNat_ofNat_of_lt hlt
  have hticket := toNat_ofNat_of_lt (Nat.lt_of_le_of_lt hle hlt)
  rw [Bool.eq_iff_iff, SessionShared.isCurrent_eq_true, beq_iff_eq, ← UInt64.toNat_inj, hepoch,
    hticket]

end Thther
