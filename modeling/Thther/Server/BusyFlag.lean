import Thther.Server.ActiveConnection

/-!
# The busy flag of a session

`become_active` and `leave` are two accesses each, to the epoch and to `connected`.  At rest the
flag tells whether a connection is active in the runs where no store of it comes too late
(`connected_iff_active`); from the first store that does, the session comes to rest with a wrong
flag.
-/

namespace Thther

open Fencing (Fence Action)

/-- No connection is inside `become_active` or `leave`. -/
def Session.AtRest (s : Session) : Prop :=
  ∀ c, (s.conns c).phase ≠ .activating ∧ (s.conns c).phase ≠ .clearing

/-- At rest `connected` tells whether the connection with the current epoch has not left, and so
does `is_busy` while the session lives. -/
structure Session.FlagTruthful (s : Session) : Prop where
  connected : s.AtRest → (s.shared.connected = true ↔ ∃ c, s.Active c)
  busy : s.AtRest → s.shared.ended = false → (s.shared.isBusy = true ↔ ∃ c, s.Active c)

theorem Session.FlagTruthful.of_connected {s : Session}
    (h : s.AtRest → (s.shared.connected = true ↔ ∃ c, s.Active c)) : s.FlagTruthful := by
  refine ⟨h, fun hrest hended => ?_⟩
  rw [SessionShared.isBusy_eq_true, and_iff_left hended]
  exact h hrest

/-- `leave` stores `false` while the holder of the epoch has stored `true` and not left, or
`become_active` stores `true` after the holder has left, only if another connection has still to
make its store the other way. -/
def FlagStored (s : Session) : SessionEvent → Prop
  | .conn _ .leaveStore => ∀ d, s.Holder d →
      (s.conns d).phase = .serving ∨ (s.conns d).phase = .leaving →
        ∃ c, (s.conns c).phase = .activating
  | .conn _ .storeConnected => ∀ d, s.Holder d → (s.conns d).phase = .left →
      ∃ c, (s.conns c).phase = .clearing
  | _ => True

/-! ### The flag at rest -/

theorem ConnPhase.stage_eq_claiming {p : ConnPhase} : p.stage = .claiming ↔ p = .activating := by
  cases p <;> simp [ConnPhase.stage]

theorem ConnPhase.stage_eq_holding {p : ConnPhase} :
    p.stage = .holding ↔ p = .serving ∨ p = .leaving := by
  cases p <;> simp [ConnPhase.stage]

theorem ConnPhase.stage_eq_clearing {p : ConnPhase} : p.stage = .clearing ↔ p = .clearing := by
  cases p <;> simp [ConnPhase.stage]

theorem ConnPhase.stage_eq_left {p : ConnPhase} : p.stage = .left ↔ p = .left := by
  cases p <;> simp [ConnPhase.stage]

theorem fence_atRest {t : Session × History} : (Session.fence t).AtRest ↔ t.1.AtRest := by
  refine forall_congr' fun c => and_congr (not_congr ?_) (not_congr ?_)
  · exact ConnPhase.stage_eq_claiming
  · exact ConnPhase.stage_eq_clearing

/-- What each access asks of the fence is what its event asks of the session. -/
theorem fence_flagOk {t : Session × History} {e : SessionEvent} {a : Action ℕ Psk PtyMsg}
    (ha : e.action t = some a) (hok : FlagStored t.1 e) : (Session.fence t).FlagOk a := by
  cases a with
  | clear c =>
    have he : e = .conn c .leaveStore := SessionEvent.of_action ha
    subst he
    intro d hd hst
    obtain ⟨c', hc'⟩ := hok d (fence_holder.1 hd) (ConnPhase.stage_eq_holding.1 hst)
    exact ⟨c', ConnPhase.stage_eq_claiming.2 hc'⟩
  | announce c =>
    have he : e = .conn c .storeConnected := SessionEvent.of_action ha
    subst he
    intro d hd hst
    obtain ⟨c', hc'⟩ := hok d (fence_holder.1 hd) (ConnPhase.stage_eq_left.1 hst)
    exact ⟨c', ConnPhase.stage_eq_clearing.2 hc'⟩
  | _ => trivial

theorem flagTruthful_of_flagStored {s : Session} (hs : sessionSystem.ReachableWith FlagStored s) :
    s.FlagTruthful := by
  obtain ⟨hist, ht⟩ := hs.traced History.new History.record
  have hfence : (Fencing.system ℕ Psk PtyMsg).ReachableWith Fence.FlagOk
      (Session.fence (s, hist)) :=
    fence_reachable (fun t e t' a _ hok _ ha => fence_flagOk ha hok) ht
  refine .of_connected fun hrest => ?_
  exact (Fence.flag_iff_active hfence (fence_atRest.2 hrest)).trans
    (exists_congr fun c => fence_active)

/-! ### Coming to rest -/

/-- Only finitely many connections have sent anything. -/
theorem finitely_many_conns {s : Session} (hs : sessionSystem.Reachable s) :
    ∃ n, ∀ c, n ≤ c → (s.conns c).phase = .accepted := by
  refine System.invariant (I := fun s => ∃ n, ∀ c, n ≤ c → (s.conns c).phase = .accepted)
    (fun s hi => ?_) (fun s e s' h hst => ?_) hs
  · obtain ⟨_, _, _, _, _, rfl⟩ := hi
    exact ⟨0, fun c _ => rfl⟩
  · obtain ⟨n, hn⟩ := h
    cases sessionStep_cases hst with
    | background e s' _ hb =>
      refine ⟨n, fun c hc => ?_⟩
      rcases hb.conns c with h | h
      · rw [h]; exact hn c hc
      · rw [h]; exact hn c hc
    | rotate i psk _ => exact ⟨n, hn⟩
    | conn d e shared k _ =>
      refine ⟨max n (d + 1), fun c hc => ?_⟩
      have hcd : c ≠ d := by omega
      show (Function.update s.conns d k c).phase = _
      rw [Function.update_of_ne hcd]
      exact hn c (by omega)

/-- `s'` is `s` after the connections in phase `p` have gone on to `q`; those elsewhere, the epochs
and a flag that was `b` are as they were. -/
structure Settled (p q : ConnPhase) (b : Bool) (s s' : Session) : Prop where
  none_left : ∀ c, (s'.conns c).phase ≠ p
  phase : ∀ c, (s'.conns c).phase = (s.conns c).phase ∨
    (s.conns c).phase = p ∧ (s'.conns c).phase = q
  epoch : ∀ c, (s'.conns c).epoch = (s.conns c).epoch
  activeEpoch : s'.shared.activeEpoch = s.shared.activeEpoch
  connected : s.shared.connected = b → s'.shared.connected = b

/-- The event takes a connection from `p` to `q` and stores `b`. -/
def Stores (e : ConnEvent) (p q : ConnPhase) (b : Bool) : Prop :=
  ∀ shared k, k.phase = p → ∃ k', connStep shared k e = some (shared.storeConnected b, k') ∧
    k'.phase = q ∧ k'.epoch = k.epoch

theorem stores_leaveStore : Stores .leaveStore .clearing .left false :=
  fun _ _ hk => ⟨_, if_pos hk, rfl, rfl⟩

theorem stores_storeConnected : Stores .storeConnected .activating .serving true :=
  fun _ _ hk => ⟨_, if_pos hk, rfl, rfl⟩

/-- The connections below `n` in phase `p` make their store, one after another. -/
theorem Stores.exists_settled {e : ConnEvent} {p q : ConnPhase} {b : Bool} (h : Stores e p q b)
    (hpq : q ≠ p) (n : ℕ) : ∀ s : Session, (∀ c, n ≤ c → (s.conns c).phase ≠ p) →
      ∃ es s', sessionSystem.run s es = some s' ∧ Settled p q b s s' := by
  induction n with
  | zero =>
    intro s hn
    exact ⟨[], s, rfl, fun c => hn c (Nat.zero_le c), fun c => Or.inl rfl, fun c => rfl, rfl, id⟩
  | succ n ih =>
    intro s hn
    by_cases hp : (s.conns n).phase = p
    · obtain ⟨k, hk, hkq, hke⟩ := h s.shared (s.conns n) hp
      let s₁ : Session :=
        { s with shared := s.shared.storeConnected b, conns := Function.update s.conns n k }
      have hs₁ : sessionSystem.step s (.conn n e) = some s₁ := by
        show sessionStep s (.conn n e) = _
        simp only [sessionStep, hk]
        rfl
      have hself : s₁.conns n = k := Function.update_self _ _ _
      have hne : ∀ c, c ≠ n → s₁.conns c = s.conns c := fun c hc => Function.update_of_ne hc _ _
      obtain ⟨es, s', hrun, hset⟩ := ih s₁ fun c hc => by
        by_cases hcn : c = n
        · rw [hcn, hself, hkq]; exact hpq
        · rw [hne c hcn]; exact hn c (by omega)
      refine ⟨.conn n e :: es, s', ?_, hset.none_left, fun c => ?_, fun c => ?_,
        hset.activeEpoch, fun _ => hset.connected rfl⟩
      · rw [System.run_cons, hs₁]
        exact hrun
      · by_cases hcn : c = n
        · subst hcn
          refine Or.inr ⟨hp, ?_⟩
          rcases hset.phase c with h | ⟨h, -⟩
          · rw [h, hself, hkq]
          · rw [hself, hkq] at h
            exact absurd h hpq
        · rw [← hne c hcn]
          exact hset.phase c
      · by_cases hcn : c = n
        · subst hcn
          rw [hset.epoch, hself, hke]
        · rw [hset.epoch, hne c hcn]
    · refine ih s fun c hc => ?_
      by_cases hcn : c = n
      · rw [hcn]; exact hp
      · exact hn c (by omega)

theorem exists_settled_of_reachable {s : Session} (hs : sessionSystem.Reachable s) {e : ConnEvent}
    {p q : ConnPhase} {b : Bool} (h : Stores e p q b) (hpq : q ≠ p) (hp : p ≠ .accepted) :
    ∃ es s', sessionSystem.run s es = some s' ∧ Settled p q b s s' := by
  obtain ⟨n, hn⟩ := finitely_many_conns hs
  refine h.exists_settled hpq n s fun c hc => ?_
  rw [hn c hc]
  exact hp.symm

/-- The flag is down although a connection is active, and no connection has yet to raise it. -/
theorem exists_not_truthful_of_lowered {s : Session} (hs : sessionSystem.Reachable s) {d : ℕ}
    (hd : s.Holder d) (hphase : (s.conns d).phase = .serving ∨ (s.conns d).phase = .leaving)
    (hflag : s.shared.connected = false) (hnone : ∀ c, (s.conns c).phase ≠ .activating) :
    ∃ es s', sessionSystem.run s es = some s' ∧ ¬ s'.FlagTruthful := by
  obtain ⟨es, s', hrun, hset⟩ :=
    exists_settled_of_reachable hs stores_leaveStore (by decide) (by decide)
  refine ⟨es, s', hrun, fun htruth => ?_⟩
  have hrest : s'.AtRest := fun c => by
    refine ⟨fun hc => ?_, hset.none_left c⟩
    rcases hset.phase c with h | ⟨-, h⟩
    · exact hnone c (h.symm.trans hc)
    · rw [h] at hc; cases hc
  have hsame : (s'.conns d).phase = (s.conns d).phase := by
    rcases hset.phase d with h | ⟨h, -⟩
    · exact h
    · rcases hphase with hp | hp <;> rw [hp] at h <;> cases h
  have hactive : s'.Active d := by
    refine ⟨?_, by rw [hset.epoch, hset.activeEpoch]; exact hd.2⟩
    rw [hsame]
    rcases hphase with hp | hp <;> rw [hp] <;> rfl
  have := (htruth.connected hrest).2 ⟨d, hactive⟩
  rw [hset.connected hflag] at this
  cases this

/-- The flag is up although the last connection to be active has left, and no connection has yet
to lower it. -/
theorem exists_not_truthful_of_raised {s : Session} (hs : sessionSystem.Reachable s) {d : ℕ}
    (hd : s.Holder d) (hphase : (s.conns d).phase = .left)
    (hflag : s.shared.connected = true) (hnone : ∀ c, (s.conns c).phase ≠ .clearing) :
    ∃ es s', sessionSystem.run s es = some s' ∧ ¬ s'.FlagTruthful := by
  obtain ⟨es, s', hrun, hset⟩ :=
    exists_settled_of_reachable hs stores_storeConnected (by decide) (by decide)
  refine ⟨es, s', hrun, fun htruth => ?_⟩
  have hrest : s'.AtRest := fun c => by
    refine ⟨hset.none_left c, fun hc => ?_⟩
    rcases hset.phase c with h | ⟨-, h⟩
    · exact hnone c (h.symm.trans hc)
    · rw [h] at hc; cases hc
  have hleft : (s'.conns d).phase = .left := by
    rcases hset.phase d with h | ⟨h, -⟩
    · exact h.trans hphase
    · rw [hphase] at h; cases h
  have hholder : s'.Holder d :=
    ⟨Or.inr hleft, by rw [hset.epoch, hset.activeEpoch]; exact hd.2⟩
  obtain ⟨c, hc⟩ := (htruth.connected hrest).1 (hset.connected hflag)
  -- two holders of one epoch are the same connection
  obtain ⟨hist, ht⟩ := (hs.run (fun _ _ _ => trivial) hrun).traced History.new History.record
  have hinv : (Session.fence (s', hist)).Inv := fence_inv ht
  have hc' : (Session.fence (s', hist)).Active c := fence_active.2 hc
  have hd' : (Session.fence (s', hist)).Holder d := fence_holder.2 hholder
  have hcd : c = d := hinv.unique c d hc'.1.1 hd'.1 (hc'.1.2.trans hd'.2.symm)
  rw [hcd, Session.Active, hleft] at hc
  exact absurd hc.1 (by decide)

/-- **At rest the busy flag tells the truth** in every run that keeps to `FlagStored`, and after
the first step against it the stores still to be made leave a wrong flag. -/
theorem connected_iff_active (s : Session) (hs : sessionSystem.ReachableWith FlagStored s) :
    s.FlagTruthful ∧
      ∀ e s', ¬ FlagStored s e → sessionSystem.step s e = some s' →
        ∃ es s'', sessionSystem.run s' es = some s'' ∧ ¬ s''.FlagTruthful := by
  refine ⟨flagTruthful_of_flagStored hs, fun e s' hok hst => ?_⟩
  have hs' : sessionSystem.Reachable s' := hs.reachable.step trivial hst
  cases e with
  | conn c e =>
    obtain ⟨shared, k, hc, heq⟩ := sessionStep_conn hst
    cases e with
    | leaveStore =>
      simp only [FlagStored, not_forall, not_exists] at hok
      obtain ⟨d, hd, hphase, hnone⟩ := hok
      simp only [connStep] at hc
      split_ifs at hc with hp
      cases hc
      have hdc : d ≠ c := by
        rintro rfl
        rw [hp] at hphase
        rcases hphase with h | h <;> cases h
      have hsame : s'.conns d = s.conns d := by rw [heq]; exact Function.update_of_ne hdc _ _
      have hepoch : s'.shared.activeEpoch = s.shared.activeEpoch := by rw [heq]; rfl
      refine exists_not_truthful_of_lowered hs' (d := d) ?_ ?_ (by rw [heq]; rfl) ?_
      · rw [Session.Holder, hsame, hepoch]; exact hd
      · rw [hsame]; exact hphase
      · rw [heq]
        exact forall_update (P := fun _ k => k.phase ≠ .activating) (fun c' _ => hnone c')
          (by simp)
    | storeConnected =>
      simp only [FlagStored, not_forall, not_exists] at hok
      obtain ⟨d, hd, hphase, hnone⟩ := hok
      simp only [connStep] at hc
      split_ifs at hc with hp
      cases hc
      have hdc : d ≠ c := by
        rintro rfl
        rw [hp] at hphase
        cases hphase
      have hsame : s'.conns d = s.conns d := by rw [heq]; exact Function.update_of_ne hdc _ _
      have hepoch : s'.shared.activeEpoch = s.shared.activeEpoch := by rw [heq]; rfl
      refine exists_not_truthful_of_raised hs' (d := d) ?_ ?_ (by rw [heq]; rfl) ?_
      · rw [Session.Holder, hsame, hepoch]; exact hd
      · rw [hsame]; exact hphase
      · rw [heq]
        exact forall_update (P := fun _ k => k.phase ≠ .clearing) (fun c' _ => hnone c')
          (by simp)
    | _ => exact absurd trivial hok
  | _ => exact absurd trivial hok

/-- A connection comes and goes, and another one follows. -/
def oneByOneRun : List SessionEvent :=
  handshake 0 0 ++ [.conn 0 .fetchAdd, .conn 0 .storeConnected, .conn 0 (.recv none),
    .conn 0 .finish, .conn 0 .leaveLoad, .conn 0 .leaveStore] ++
    handshake 1 0 ++ [.conn 1 .fetchAdd, .conn 1 .storeConnected]

theorem connected_iff_active_oneByOneRun :
    ∃ s, sessionSystem.run freshSession oneByOneRun = some s ∧ s.Active 1 ∧
      s.shared.connected = true ∧ s.FlagTruthful := by
  have hok : sessionSystem.RunMeets FlagStored freshSession oneByOneRun := by
    refine ⟨trivial, trivial, trivial, trivial, trivial, trivial, trivial, trivial, trivial, ?_,
      trivial, trivial, trivial, ?_, trivial, trivial, trivial, trivial, trivial, trivial, trivial,
      trivial, trivial, ?_, trivial⟩
    · rintro (_ | d) hd hleft
      · exact nomatch hleft
      · exact nomatch hleft
    · rintro (_ | d) hd hphase
      · rcases hphase with h | h <;> exact nomatch h
      · rcases hphase with h | h <;> exact nomatch h
    · -- the connection that has left does not hold the epoch
      rintro (_ | _ | d) hd hleft
      · exact absurd (show 1 = 2 from hd.2) (by decide)
      · exact nomatch hleft
      · exact nomatch hleft
  have hrun : sessionSystem.run freshSession oneByOneRun = some _ := rfl
  exact ⟨_, hrun, ⟨rfl, rfl⟩, rfl,
    (connected_iff_active _
      ((System.ReachableWith.init initial_freshSession).run_meets hok hrun)).1⟩

/-- A connection compares its epoch, is superseded, and stores `false`. -/
def lateClearRun : List SessionEvent :=
  handshake 0 0 ++ [.conn 0 .fetchAdd, .conn 0 .storeConnected, .conn 0 (.recv none),
    .conn 0 .finish, .conn 0 .leaveLoad] ++
    handshake 1 0 ++ [.conn 1 .fetchAdd, .conn 1 .storeConnected, .conn 0 .leaveStore]

/-- A connection is superseded inside `become_active`, its successor leaves, and it stores `true`
and leaves as well. -/
def lateRaiseRun : List SessionEvent :=
  handshake 0 0 ++ [.conn 0 .fetchAdd] ++
    handshake 1 0 ++ [.conn 1 .fetchAdd, .conn 1 .storeConnected, .conn 1 (.recv none),
      .conn 1 .finish, .conn 1 .leaveLoad, .conn 1 .leaveStore,
      .conn 0 .storeConnected, .conn 0 .checkCurrent, .conn 0 .finish, .conn 0 .leaveLoad]

/-- The flag of a live session at rest is wrong in both directions. -/
theorem not_connected_iff_active :
    (¬ ∀ s, sessionSystem.Reachable s → s.shared.ended = false → s.AtRest →
      (∃ c, s.Active c) → s.shared.connected = true) ∧
    ¬ ∀ s, sessionSystem.Reachable s → s.shared.ended = false → s.AtRest →
      s.shared.connected = true → ∃ c, s.Active c := by
  constructor
  · intro h
    have hrun : ∃ s, sessionSystem.run freshSession lateClearRun = some s ∧
        s.shared.ended = false ∧ s.shared.connected = false ∧ s.Active 1 ∧ s.AtRest := by
      refine ⟨_, rfl, rfl, rfl, ⟨rfl, rfl⟩, fun c => ?_⟩
      match c with
      | 0 => exact ⟨nofun, nofun⟩
      | 1 => exact ⟨nofun, nofun⟩
      | n + 2 => exact ⟨nofun, nofun⟩
    obtain ⟨s, hs, hended, hflag, hact, hrest⟩ := hrun
    have hreach := System.reachable_of_run lateClearRun initial_freshSession hs
    have := h s hreach hended hrest ⟨1, hact⟩
    rw [hflag] at this
    cases this
  · intro h
    have hrun : ∃ s, sessionSystem.run freshSession lateRaiseRun = some s ∧
        s.shared.ended = false ∧ s.shared.connected = true ∧ s.AtRest ∧ ∀ c, ¬ s.Active c := by
      refine ⟨_, rfl, rfl, rfl, fun c => ?_, fun c => ?_⟩
      · match c with
        | 0 => exact ⟨nofun, nofun⟩
        | 1 => exact ⟨nofun, nofun⟩
        | n + 2 => exact ⟨nofun, nofun⟩
      · match c with
        | 0 => exact fun h => nomatch h.1
        | 1 => exact fun h => nomatch h.1
        | n + 2 => exact fun h => nomatch h.1
    obtain ⟨s, hs, hended, hflag, hrest, hnone⟩ := hrun
    obtain ⟨c, hc⟩ :=
      h s (System.reachable_of_run lateRaiseRun initial_freshSession hs) hended hrest hflag
    exact hnone c hc

end Thther
