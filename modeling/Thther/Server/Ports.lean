import Thther.Server.Startup

/-!
# The TCP ports of the daemons

Which port `bind_tcp` gets, and who has which port in any run of `startupSystem`.

* `bindTcp_eq_ok`: the fixed port or, without one, the lowest of the range that can be bound;
* `daemon_owns_port`: every live daemon has one port, which its options allow and no other has.
-/

namespace Thther

/-- The port is the fixed one, or in the range where there is none. -/
def PortConfig.Allows (cfg : PortConfig) (port : UInt16) : Prop :=
  match cfg.port with
  | some p => port = p.1
  | none => cfg.portRange.1 ≠ 0 ∧ cfg.portRange.1 ≤ port ∧ port ≤ cfg.portRange.2

/-- The first port that is allowed and can be bound. -/
structure PortConfig.Selects (cfg : PortConfig) (bind : UInt16 → Bool) (port : UInt16) : Prop where
  allows : cfg.Allows port
  bound : bind port = true
  lowest : ∀ q, cfg.Allows q → bind q = true → port ≤ q

/-- The ports `bind_tcp_in_range` tries, in order. -/
theorem mem_portsIn {lo hi port : UInt16} (hle : lo ≤ hi) :
    port ∈ (List.range' lo.toNat (hi.toNat + 1 - lo.toNat)).map UInt16.ofNat ↔
      lo ≤ port ∧ port ≤ hi := by
  have hlt := hi.toNat_lt
  rw [UInt16.le_iff_toNat_le] at hle
  simp only [List.mem_map, List.mem_range'_1, UInt16.le_iff_toNat_le]
  constructor
  · rintro ⟨n, hn, rfl⟩
    rw [UInt16.toNat_ofNat', Nat.mod_eq_of_lt (by omega)]
    omega
  · rintro ⟨hlo, hhi⟩
    exact ⟨port.toNat, by omega, UInt16.ofNat_toNat⟩

theorem pairwise_portsIn {lo hi : UInt16} :
    ((List.range' lo.toNat (hi.toNat + 1 - lo.toNat)).map UInt16.ofNat).Pairwise (· < ·) := by
  have hlt := hi.toNat_lt
  rw [List.pairwise_map]
  have hrange : (List.range' lo.toNat (hi.toNat + 1 - lo.toNat)).Pairwise (· < ·) :=
    List.pairwise_lt_range'
  refine hrange.imp_of_mem fun {a b} ha hb hab => ?_
  rw [List.mem_range'_1] at ha hb
  rw [UInt16.lt_iff_toNat_lt, UInt16.toNat_ofNat', UInt16.toNat_ofNat',
    Nat.mod_eq_of_lt (by omega), Nat.mod_eq_of_lt (by omega)]
  exact hab

/-- The first of an increasing list that meets a condition is the least that does. -/
theorem find?_eq_some_least {l : List UInt16} (hl : l.Pairwise (· < ·)) {f : UInt16 → Bool}
    {port : UInt16} :
    l.find? f = some port ↔ port ∈ l ∧ f port = true ∧ ∀ q ∈ l, f q = true → port ≤ q := by
  induction l with
  | nil => simp
  | cons a l ih =>
    obtain ⟨hfirst, hrest⟩ := List.pairwise_cons.1 hl
    by_cases ha : f a = true
    · rw [List.find?_cons_of_pos ha, Option.some.injEq]
      constructor
      · rintro rfl
        refine ⟨List.mem_cons_self, ha, fun q hq _ => ?_⟩
        rcases List.mem_cons.1 hq with rfl | hq
        · exact UInt16.le_refl _
        · exact UInt16.le_of_lt (hfirst q hq)
      · rintro ⟨hmem, -, hleast⟩
        rcases List.mem_cons.1 hmem with rfl | hmem
        · rfl
        · have hle := hleast a List.mem_cons_self ha
          have hlt := hfirst port hmem
          rw [UInt16.le_iff_toNat_le] at hle
          rw [UInt16.lt_iff_toNat_lt] at hlt
          omega
    · rw [List.find?_cons_of_neg ha, ih hrest]
      constructor
      · rintro ⟨hmem, hport, hleast⟩
        refine ⟨List.mem_cons_of_mem _ hmem, hport, fun q hq hfq => ?_⟩
        rcases List.mem_cons.1 hq with rfl | hq
        · exact absurd hfq ha
        · exact hleast q hq hfq
      · rintro ⟨hmem, hport, hleast⟩
        rcases List.mem_cons.1 hmem with rfl | hmem
        · exact absurd hport ha
        · exact ⟨hmem, hport, fun q hq => hleast q (List.mem_cons_of_mem _ hq)⟩

/-- `bind_tcp` gets the first port that is allowed and can be bound. -/
theorem bindTcp_eq_ok {bind : UInt16 → Bool} {cfg : PortConfig} {port : UInt16} :
    bindTcp bind cfg = .ok port ↔ cfg.Selects bind port := by
  obtain ⟨fixed, lo, hi⟩ := cfg
  cases fixed with
  | some p =>
    obtain ⟨p, hp⟩ := p
    simp only [bindTcp]
    constructor
    · intro h
      split_ifs at h with hb
      cases h
      refine ⟨rfl, hb, fun q hq _ => ?_⟩
      rw [show q = port from hq]
      exact UInt16.le_refl _
    · rintro ⟨hallows, hbound, -⟩
      rw [show port = p from hallows] at hbound ⊢
      rw [if_pos hbound]
  | none =>
    simp only [bindTcp, bindTcpInRange]
    by_cases hrange : lo ≠ 0 ∧ lo ≤ hi
    · rw [if_pos hrange]
      have hallows : ∀ q, PortConfig.Allows ⟨none, lo, hi⟩ q ↔
          q ∈ (List.range' lo.toNat (hi.toNat + 1 - lo.toNat)).map UInt16.ofNat := by
        intro q
        rw [mem_portsIn hrange.2]
        exact ⟨fun h => h.2, fun h => ⟨hrange.1, h⟩⟩
      have hfind := @find?_eq_some_least _ (@pairwise_portsIn lo hi) bind port
      constructor
      · intro h
        split at h
        · rename_i q hq
          cases h
          obtain ⟨hmem, hbound, hleast⟩ := hfind.1 hq
          exact ⟨(hallows _).2 hmem, hbound, fun q hq => hleast q ((hallows q).1 hq)⟩
        · cases h
      · rintro ⟨hmem, hbound, hleast⟩
        rw [hfind.2 ⟨(hallows _).1 hmem, hbound, fun q hq => hleast q ((hallows q).2 hq)⟩]
    · rw [if_neg hrange]
      constructor
      · exact nofun
      · rintro ⟨⟨hlo, hle, hle'⟩, -, -⟩
        exact absurd ⟨hlo, UInt16.le_trans hle hle'⟩ hrange

/-- `bind_tcp` fails only where no port that is allowed can be bound. -/
theorem bindTcp_eq_error {bind : UInt16 → Bool} {cfg : PortConfig} {e : String}
    (h : bindTcp bind cfg = .error e) {port : UInt16} (hport : cfg.Allows port) :
    bind port = false := by
  obtain ⟨fixed, lo, hi⟩ := cfg
  cases fixed with
  | some p =>
    obtain ⟨p, hp⟩ := p
    rw [show port = p from hport]
    simp only [bindTcp] at h
    split_ifs at h with hb
    exact Bool.eq_false_iff.2 hb
  | none =>
    obtain ⟨hlo, hle, hle'⟩ := hport
    have hrange : lo ≤ hi := UInt16.le_trans hle hle'
    simp only [bindTcp, bindTcpInRange, if_pos (show lo ≠ 0 ∧ lo ≤ hi from ⟨hlo, hrange⟩)] at h
    split at h
    · cases h
    · rename_i hnone
      exact Bool.eq_false_iff.2 (List.find?_eq_none.1 hnone port ((mem_portsIn hrange).2
        ⟨hle, hle'⟩))

/-- The TCP port a process has bound. -/
def StartupPhase.tcpPort : StartupPhase → Option UInt16
  | bound port | cleared port | published port | serving port => some port
  | starting | locked | probed | exited _ | killed => none

/-- The processes have their ports, and what they have is allowed. -/
structure Host.PortsOwned (launch : ℕ → Launch) (s : Host) : Prop where
  owns : ∀ p port, (s.daemons p).tcpPort = some port ↔ s.ports port = some p
  allows : ∀ p port, (s.daemons p).tcpPort = some port → (launch p).config.Allows port

section Owned

variable {sockPath : String} {launch : ℕ → Launch} {s s' : Host} {p : ℕ}

/-- Process `p` goes on with the port it has, if any. -/
theorem Host.PortsOwned.goto (h : s.PortsOwned launch) {phase : StartupPhase}
    (hphase : phase.tcpPort = (s.daemons p).tcpPort) (lock socket : Option ℕ) :
    Host.PortsOwned launch ⟨Function.update s.daemons p phase, lock, socket, s.ports⟩ := by
  have hport : ∀ q, (Function.update s.daemons p phase q).tcpPort = (s.daemons q).tcpPort := by
    intro q
    by_cases hq : q = p
    · rw [hq, Function.update_self, hphase]
    · rw [Function.update_of_ne hq]
  refine ⟨fun q port => ?_, fun q port hq => ?_⟩
  · dsimp only
    rw [hport]
    exact h.owns q port
  · dsimp only at hq
    rw [hport] at hq
    exact h.allows q port hq

theorem Host.leave_daemons (s : Host) (p : ℕ) (phase : StartupPhase) :
    (s.leave p phase).daemons p = phase := by
  show Function.update s.daemons p phase p = phase
  rw [Function.update_self]

/-- Process `p` is gone, and its port is free. -/
theorem Host.PortsOwned.leave (h : s.PortsOwned launch) {phase : StartupPhase}
    (hphase : phase.tcpPort = none) : (s.leave p phase).PortsOwned launch := by
  have hports : ∀ port, (s.leave p phase).ports port =
      if s.ports port = some p then none else s.ports port := fun _ => rfl
  refine ⟨fun q port => ?_, fun q port hq => ?_⟩
  · rw [hports]
    by_cases hq : q = p
    · rw [hq, Host.leave_daemons, hphase]
      split_ifs with hown
      · simp
      · simp [hown]
    · have hother : (s.leave p phase).daemons q = s.daemons q := Function.update_of_ne hq _ _
      rw [hother, h.owns]
      split_ifs with hown
      · rw [hown]
        simp [Ne.symm hq]
      · rfl
  · by_cases hqp : q = p
    · rw [hqp, Host.leave_daemons, hphase] at hq
      cases hq
    · have hother : (s.leave p phase).daemons q = s.daemons q := Function.update_of_ne hqp _ _
      rw [hother] at hq
      exact h.allows q port hq

/-- Process `p` gets a port that is free. -/
theorem Host.PortsOwned.bind (h : s.PortsOwned launch) {port : UInt16}
    (hp : (s.daemons p).tcpPort = none) (hfree : s.ports port = none)
    (hallows : (launch p).config.Allows port) :
    Host.PortsOwned launch
      { s.goto p (.bound port) with ports := Function.update s.ports port (some p) } := by
  have hself : (s.goto p (.bound port)).daemons p = .bound port := Function.update_self ..
  have hother : ∀ q, q ≠ p → (s.goto p (.bound port)).daemons q = s.daemons q :=
    fun q hq => Function.update_of_ne hq _ _
  refine ⟨fun q port' => ?_, fun q port' hq => ?_⟩
  · dsimp only
    by_cases hport : port' = port
    · subst hport
      rw [Function.update_self]
      by_cases hq : q = p
      · rw [hq, hself]
        simp [StartupPhase.tcpPort]
      · rw [hother q hq, h.owns, hfree]
        simp [Ne.symm hq]
    · rw [Function.update_of_ne hport]
      by_cases hq : q = p
      · rw [hq, hself, ← h.owns, hp]
        simp [StartupPhase.tcpPort, Ne.symm hport]
      · rw [hother q hq]
        exact h.owns q port'
  · dsimp only at hq
    by_cases hqp : q = p
    · rw [hqp, hself] at hq
      cases hq
      rw [hqp]
      exact hallows
    · rw [hother q hqp] at hq
      exact h.allows q port' hq

theorem Host.PortsOwned.step {e : StartupEvent} (h : s.PortsOwned launch)
    (hstep : startupStep sockPath launch s e = some s') : s'.PortsOwned launch := by
  cases e with
  | startFails p e =>
    simp only [startupStep] at hstep
    split at hstep <;> cases hstep
    exact h.leave rfl
  | flock p =>
    simp only [startupStep] at hstep
    split at hstep
    · rename_i hphase
      split_ifs at hstep
      cases hstep
      exact h.goto (by rw [hphase]; rfl) _ _
    · cases hstep
  | connect p res =>
    simp only [startupStep] at hstep
    split at hstep
    · rename_i hphase
      have hprobed : (s.goto p .probed).PortsOwned launch := h.goto (by rw [hphase]; rfl) _ _
      cases res with
      | ok =>
        dsimp only at hstep
        split_ifs at hstep
        cases hstep
        exact h.leave rfl
      | other =>
        cases hstep
        exact hprobed
      | _ =>
        dsimp only at hstep
        split_ifs at hstep
        cases hstep
        exact hprobed
    · cases hstep
  | bindTcp p bind =>
    simp only [startupStep] at hstep
    split at hstep
    · rename_i hphase
      split at hstep
      · cases hstep
        exact h.leave rfl
      · rename_i port hport
        split_ifs at hstep with hfree
        cases hstep
        exact h.bind (by rw [hphase]; rfl) hfree (bindTcp_eq_ok.1 hport).allows
    · cases hstep
  | unlink p ok =>
    simp only [startupStep] at hstep
    split at hstep
    · rename_i port hphase
      cases hstep
      exact h.goto (by rw [hphase]; rfl) _ _
    · cases hstep
  | bindUds p ok =>
    simp only [startupStep] at hstep
    split at hstep
    · rename_i port hphase
      split_ifs at hstep
      · cases hstep
        exact h.goto (by rw [hphase]; rfl) _ _
      · cases hstep
        exact h.leave rfl
    · cases hstep
  | release p =>
    simp only [startupStep] at hstep
    split at hstep
    · rename_i port hphase
      cases hstep
      exact h.goto (by rw [hphase]; rfl) _ _
    · cases hstep
  | acceptFails p e =>
    simp only [startupStep] at hstep
    split at hstep <;> cases hstep
    exact h.leave rfl
  | kill p =>
    simp only [startupStep] at hstep
    split_ifs at hstep
    cases hstep
    exact h.leave rfl

theorem ports_owned (hs : (startupSystem sockPath launch).Reachable s) :
    s.PortsOwned launch := by
  refine System.invariant (fun s₁ hi => ?_) (fun _ _ _ h hst => h.step hst) hs
  obtain ⟨socket, rfl⟩ := hi
  exact ⟨fun _ _ => by simp [Host.new, StartupPhase.tcpPort], fun _ _ => nofun⟩

/-- **A daemon owns its TCP port.**  In every run of any number of daemons, started and killed at
any time: a port is bound by the one process that has it, and no two have the same one; it is the
fixed port, where the command line comes before the file, or in the range; and `bind_tcp` gets the
lowest such port that can be bound, and fails only where none can. -/
theorem daemon_owns_port (sockPath : String) (launch : ℕ → Launch) (s : Host)
    (hs : (startupSystem sockPath launch).Reachable s) :
    (∀ p port, (s.daemons p).tcpPort = some port ↔ s.ports port = some p) ∧
      (∀ p q port, (s.daemons p).tcpPort = some port → (s.daemons q).tcpPort = some port →
        p = q) ∧
      (∀ p port, (s.daemons p).tcpPort = some port → (launch p).config.Allows port) ∧
      ∀ p bind s', startupStep sockPath launch s (.bindTcp p bind) = some s' →
        (∃ port, (s'.daemons p).tcpPort = some port ∧
          (launch p).config.Selects bind port) ∨
        (s'.daemons p).tcpPort = none ∧ ∀ port, (launch p).config.Allows port →
          bind port = false := by
  have hinv := ports_owned hs
  refine ⟨hinv.owns, fun p q port hp hq => ?_, hinv.allows, fun p bind s' hstep => ?_⟩
  · have hown := (hinv.owns p port).1 hp
    rw [(hinv.owns q port).1 hq, Option.some.injEq] at hown
    exact hown.symm
  · simp only [startupStep] at hstep
    split at hstep
    · cases hres : bindTcp bind (launch p).config with
      | error e =>
        rw [hres] at hstep
        cases hstep
        refine .inr ⟨?_, fun port => bindTcp_eq_error hres⟩
        rw [Host.leave_daemons]
        rfl
      | ok port =>
        rw [hres] at hstep
        dsimp only at hstep
        split_ifs at hstep
        cases hstep
        refine .inl ⟨port, ?_, bindTcp_eq_ok.1 hres⟩
        show (Function.update s.daemons p (.bound port) p).tcpPort = some port
        rw [Function.update_self]
        rfl
    · cases hstep

end Owned

/-- The second daemon gets the next port of the range. -/
theorem daemon_owns_port_next : ∃ s,
    (startupSystem "control.sock" (launchWith none)).run (.new none)
        (busyProbeRun fun port => port ≠ 60000) = some s ∧
      s.ports 60000 = some 0 ∧ s.ports 60001 = some 1 ∧
      ∀ p port, (s.daemons p).tcpPort = some port ↔ s.ports port = some p := by
  have hinit : (startupSystem "control.sock" (launchWith none)).init (.new none) := ⟨none, rfl⟩
  have hrun : (startupSystem "control.sock" (launchWith none)).run (.new none)
      (busyProbeRun fun port => port ≠ 60000) = some _ := rfl
  exact ⟨_, hrun, rfl, rfl, (daemon_owns_port "control.sock" _ _
    (System.reachable_of_run _ hinit hrun)).1⟩

end Thther
