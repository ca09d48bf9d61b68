import Thther.Server.Registration

/-!
# `Kill` requests and the reaper (`server/daemon.rs`, `server/session.rs`)

The system of registrations with the shells of the sessions, the process ids of the host, and any
number of `Kill` requests.  A request takes two steps, `registry.get` and `SessionShared::kill`;
the reaper's `child.wait`, after which the id of the shell is free for other processes, is a step
of its own before `mark_ended`.  A stored killer signals whatever runs under the id it recorded.

* `run_kill`: uninterrupted, a request answers as `performControl` does;
* `kill_signals_own_shell`: where no `child.wait` returns while a request holds its session, and no
  request finds a session whose `child.wait` has returned, every signal goes to the session's own
  unreaped shell; after a step that is otherwise, one can go astray.
-/

namespace Thther

/-- A process id. -/
abbrev Pid := ℕ

/-- What a process id stands for. -/
inductive Process
  /-- The shell of a session, until `child.wait` has returned. -/
  | shell (c : SessionRef)
  | other (k : ℕ)
  deriving DecidableEq

/-- How far `execute_control` is with a `Kill`. -/
inductive KillPhase
  /-- `registry.get` comes next. -/
  | looking
  /-- `SessionShared::kill` of the session found comes next. -/
  | holding (c : SessionRef)
  | answered (r : ControlResponse)
  deriving DecidableEq

/-- An invocation of the killer of a session. -/
structure Signal where
  session : SessionRef
  /-- The reaper's `child.wait` has returned. -/
  reaped : Bool
  /-- What has the recorded process id. -/
  target : Option Process
  deriving DecidableEq

structure KillHost where
  registrations : Registrations
  /-- The process id in the stored killer. -/
  killer : SessionRef → Option Pid
  /-- The reaper's `child.wait` has returned. -/
  waited : SessionRef → Bool
  processes : Pid → Option Process
  requests : ℕ → KillPhase
  /-- All signals so far. -/
  signals : List Signal

inductive KillEvent
  /-- `spawn_command` and `clone_killer`. -/
  | spawnCommand (c : SessionRef) (p : Pid)
  | registration (e : RegistrationEvent)
  | waitReturns (c : SessionRef)
  /-- Another process of the host gets the id. -/
  | processStarts (p : Pid) (k : ℕ)
  | processExits (p : Pid)
  | lookup (i : ℕ) (id : String)
  | kill (i : ℕ)

namespace KillHost

def new : KillHost where
  registrations := ⟨Registry.new, fun _ => Creation.new⟩
  killer _ := none
  waited _ := false
  processes _ := none
  requests _ := .looking
  signals := []

/-- The threads start after the shell, and the reaper marks the end after `child.wait`. -/
def ready (s : KillHost) : RegistrationEvent → Bool
  | .startReader c => (s.killer c).isSome
  | .mark c .reaper => s.waited c
  | _ => true

/-- What `registry.get` finds for a request. -/
def found (s : KillHost) (id : String) : KillPhase :=
  match s.registrations.registry.get id with
  | some c => .holding c
  | none => .answered (.err "no such session")

/-- The invocation of the killer of session `c`. -/
def signal (s : KillHost) (c : SessionRef) : Signal where
  session := c
  reaped := s.waited c
  target := (s.killer c).bind s.processes

end KillHost

/-- One event. -/
def killStep (s : KillHost) : KillEvent → Option KillHost
  | .spawnCommand c p =>
    if (s.registrations.creations c).phase = .drawn ∧ s.killer c = none ∧ s.processes p = none then
      some { s with
        killer := Function.update s.killer c (some p)
        processes := Function.update s.processes p (some (.shell c)) }
    else none
  | .registration e =>
    if s.ready e then
      (registrationStep s.registrations e).map fun r => { s with registrations := r }
    else none
  | .waitReturns c =>
    if (s.registrations.creations c).started .reaper ∧ s.waited c = false then
      match s.killer c with
      | none => none
      | some p => some { s with
        waited := Function.update s.waited c true
        processes := Function.update s.processes p none }
    else none
  | .processStarts p k =>
    if s.processes p = none then
      some { s with processes := Function.update s.processes p (some (.other k)) }
    else none
  | .processExits p =>
    match s.processes p with
    | some (.other _) => some { s with processes := Function.update s.processes p none }
    | _ => none
  | .lookup i id =>
    if s.requests i = .looking then
      some { s with requests := Function.update s.requests i (s.found id) }
    else none
  | .kill i =>
    match s.requests i with
    | .holding c => some { s with
        requests := Function.update s.requests i (.answered .ok)
        signals := s.signals ++ [s.signal c] }
    | _ => none

/-- The daemon, its host, and every `Kill` request. -/
def killSystem : System KillHost KillEvent where
  init s := s = KillHost.new
  step := killStep

namespace KillHost

/-- Every signal went to the session's own shell, before it was reaped. -/
def Safe (s : KillHost) : Prop :=
  ∀ g ∈ s.signals, g.reaped = false ∧ g.target = some (.shell g.session)

end KillHost

/-- No `child.wait` returns while a request holds the session, and no request finds a session
whose `child.wait` has returned. -/
def KillsFirst (s : KillHost) : KillEvent → Prop
  | .waitReturns c => ∀ i, s.requests i ≠ .holding c
  | .lookup _ id => ∀ c, s.registrations.registry.get id = some c → s.waited c = false
  | _ => True

/-- Uninterrupted, a request answers as `performControl` does on a daemon with this registry, and
invokes the killer of the session found. -/
theorem run_kill {s : KillHost} {d : Daemon} {i : ℕ} {id : String} (env : ControlEnv)
    (port : UInt16) (hi : s.requests i = .looking) (hd : d.registry = s.registrations.registry) :
    ∃ es s' r d', killSystem.run s es = some s' ∧ s'.requests i = .answered r ∧
      performControl env (.kill id) d port = some (r, d') ∧
      s'.signals = s.signals ++ (d.registry.get id).toList.map s.signal := by
  have hlook : killSystem.step s (.lookup i id) =
      some { s with requests := Function.update s.requests i (s.found id) } := if_pos hi
  cases hg : d.registry.get id with
  | none =>
    have hfound : s.found id = .answered (.err "no such session") := by
      rw [KillHost.found, ← hd, hg]
    have hfind : d.find id = none := by
      rw [Daemon.find_eq_none, Registry.contains_eq_false]
      exact hg
    refine ⟨[.lookup i id], { s with requests := Function.update s.requests i (s.found id) },
      .err "no such session", d, (System.run_singleton _ _).trans hlook, ?_,
      by simp [performControl, hfind], by simp⟩
    simp [hfound]
  | some c =>
    have hfound : s.found id = .holding c := by rw [KillHost.found, ← hd, hg]
    obtain ⟨x, hx, -⟩ := d.keyed id c hg
    have hfind : d.find id = some (c, x) := Daemon.find_eq_some.2 ⟨hg, hx⟩
    set s₁ : KillHost := { s with requests := Function.update s.requests i (s.found id) }
    have h₁ : s₁.requests i = .holding c := by simp [s₁, hfound]
    have hkill : killSystem.step s₁ (.kill i) = some { s₁ with
        requests := Function.update s₁.requests i (.answered .ok)
        signals := s₁.signals ++ [s₁.signal c] } := by
      simp only [killSystem, killStep, h₁]
    have hrun : killSystem.run s [.lookup i id, .kill i] = killSystem.step s₁ (.kill i) := by
      rw [System.run_cons, hlook, Option.bind_some, System.run_singleton]
    exact ⟨_, _, .ok, d.modify c SessionShared.kill fun _ => rfl, hrun.trans hkill,
      Function.update_self .., by simp only [performControl, hfind], rfl⟩

/-! ### What a step can do -/

/-- What each event asks of the state, and what it changes. -/
inductive KillStepped (s : KillHost) : KillEvent → KillHost → Prop
  | spawnCommand (c : SessionRef) (p : Pid) : s.killer c = none → s.processes p = none →
      KillStepped s (.spawnCommand c p) { s with
        killer := Function.update s.killer c (some p)
        processes := Function.update s.processes p (some (.shell c)) }
  | registration (e : RegistrationEvent) (r : Registrations) : s.ready e = true →
      registrationStep s.registrations e = some r →
      KillStepped s (.registration e) { s with registrations := r }
  | waitReturns (c : SessionRef) (p : Pid) : s.killer c = some p → s.waited c = false →
      KillStepped s (.waitReturns c) { s with
        waited := Function.update s.waited c true
        processes := Function.update s.processes p none }
  | processStarts (p : Pid) (k : ℕ) : s.processes p = none →
      KillStepped s (.processStarts p k) { s with
        processes := Function.update s.processes p (some (.other k)) }
  | processExits (p : Pid) (k : ℕ) : s.processes p = some (.other k) →
      KillStepped s (.processExits p) { s with processes := Function.update s.processes p none }
  | lookup (i : ℕ) (id : String) : s.requests i = .looking →
      KillStepped s (.lookup i id) { s with requests := Function.update s.requests i (s.found id) }
  | kill (i : ℕ) (c : SessionRef) : s.requests i = .holding c →
      KillStepped s (.kill i) { s with
        requests := Function.update s.requests i (.answered .ok)
        signals := s.signals ++ [s.signal c] }

theorem killStep_cases {s s' : KillHost} {e : KillEvent} (h : killStep s e = some s') :
    KillStepped s e s' := by
  cases e with
  | spawnCommand c p =>
    simp only [killStep] at h
    split_ifs at h with hg
    cases h
    exact .spawnCommand c p hg.2.1 hg.2.2
  | registration e =>
    simp only [killStep] at h
    split_ifs at h with hg
    obtain ⟨r, hr, rfl⟩ := Option.map_eq_some_iff.1 h
    exact .registration e r hg hr
  | waitReturns c =>
    simp only [killStep] at h
    split_ifs at h with hg
    cases hk : s.killer c with
    | none =>
      rw [hk] at h
      cases h
    | some p =>
      rw [hk] at h
      cases h
      exact .waitReturns c p hk hg.2
  | processStarts p k =>
    simp only [killStep] at h
    split_ifs at h with hp
    cases h
    exact .processStarts p k hp
  | processExits p =>
    simp only [killStep] at h
    split at h
    · next k hp =>
      cases h
      exact .processExits p k hp
    · cases h
  | lookup i id =>
    simp only [killStep] at h
    split_ifs at h with hi
    cases h
    exact .lookup i id hi
  | kill i =>
    simp only [killStep] at h
    split at h
    · next c hi =>
      cases h
      exact .kill i c hi
    · cases h

/-- A reader thread is started by its own event alone. -/
theorem started_of_registrationStep {s s' : Registrations} {e : RegistrationEvent}
    {c : SessionRef} (h : registrationStep s e = some s')
    (hc : (s'.creations c).started .reader = true) :
    (s.creations c).started .reader = true ∨ e = .startReader c := by
  by_cases hstart : e = .startReader c
  · exact .inr hstart
  refine .inl ?_
  have hstarted : ∀ {d : SessionRef} {x : Creation},
      ((s.set d x).creations c).started .reader = true →
      (x.started .reader = true → (s.creations d).started .reader = true) →
      (s.creations c).started .reader = true := by
    intro d x hx hd
    by_cases hcd : c = d
    · subst hcd
      rw [s.set_creations_self] at hx
      exact hd hx
    · rwa [s.set_creations_ne x hcd] at hx
  cases e with
  | draw d n =>
    simp only [registrationStep] at h
    split_ifs at h with hp hn
    · cases h
      exact hc
    · cases h
      exact hstarted hc (by simp [Creation.started])
  | spawnFails d =>
    simp only [registrationStep] at h
    split_ifs at h with hp
    cases h
    exact hstarted hc (by simp [Creation.started])
  | startReader d =>
    simp only [registrationStep] at h
    split_ifs at h with hp
    cases h
    by_cases hcd : c = d
    · exact absurd (congrArg _ hcd.symm) hstart
    · rwa [s.set_creations_ne _ hcd] at hc
  | startReaper d =>
    simp only [registrationStep] at h
    split_ifs at h with hp
    cases h
    exact hstarted hc fun _ => by simp [Creation.started, hp]
  | insert d =>
    simp only [registrationStep] at h
    split_ifs at h with hp
    cases h
    exact hstarted hc fun _ => by simp [Creation.started, hp]
  | mark d t =>
    simp only [registrationStep] at h
    by_cases hst : (s.creations d).started t = true
    · rw [if_pos hst] at h
      cases hm : ((s.creations d).mark t).step (s.creations d).ended with
      | none =>
        rw [hm] at h
        cases h
      | some r =>
        rw [hm] at h
        dsimp only at h
        split_ifs at h <;> cases h <;> exact hstarted hc fun hx => hx
    · rw [if_neg hst] at h
      cases h

/-- An inserted session stays so. -/
theorem inserted_of_registrationStep {s s' : Registrations} {e : RegistrationEvent}
    (h : registrationStep s e = some s') :
    ∀ c, (s.creations c).inserted = true → (s'.creations c).inserted = true := by
  let P := fun c (x : Creation) => (s.creations c).inserted = true → x.inserted = true
  have hrest : ∀ d c, d ≠ c → P d (s.creations d) := fun d c _ hd => hd
  cases registrationStep_cases h with
  | taken c n => exact fun _ hc => hc
  | drawn c n hp hn =>
    refine Registrations.forall_set (P := P) (fun d _ hd => hd) fun hc => ?_
    simp [Creation.inserted, hp] at hc
  | quiet e c y hq =>
    exact Registrations.forall_set (P := P) (fun d _ hd => hd) fun hc => hq.inserted.trans hc
  | inserted c hp =>
    exact Registrations.forall_set (P := P) (fun d _ hd => hd) fun _ => rfl
  | removed c t hst hr =>
    exact Registrations.forall_set (P := P) (fun d _ hd => hd) fun hc => hc

/-! ### What holds in every interleaving -/

namespace KillHost

/-- What every interleaving keeps, whatever the requests do. -/
structure Inv (s : KillHost) : Prop where
  registrations : s.registrations.Inv
  recorded : ∀ c, (s.registrations.creations c).started .reader = true → s.killer c ≠ none
  /-- The id of an unreaped shell is the shell's own. -/
  own : ∀ c p, s.killer c = some p → s.waited c = false → s.processes p = some (.shell c)

/-- What a run of steps that meet `KillsFirst` keeps besides. -/
structure Guarded (s : KillHost) : Prop where
  held : ∀ i c, s.requests i = .holding c →
    (s.registrations.creations c).inserted = true ∧ s.waited c = false
  safe : s.Safe

/-- Ids that no unreaped shell has may change hands. -/
theorem Inv.own_update {s : KillHost} (h : s.Inv) {p : Pid} (x : Option Process)
    (hp : ∀ c, s.processes p ≠ some (.shell c)) :
    ∀ c q, s.killer c = some q → s.waited c = false →
      Function.update s.processes p x q = some (.shell c) := by
  intro c q hc hw
  have hq := h.own c q hc hw
  have hqp : q ≠ p := by
    rintro rfl
    exact hp c hq
  rw [Function.update_of_ne hqp]
  exact hq

theorem Inv.step {s s' : KillHost} {e : KillEvent} (h : s.Inv) (hs : killStep s e = some s') :
    s'.Inv := by
  cases killStep_cases hs with
  | spawnCommand c p hc hp =>
    refine ⟨h.registrations, fun d hd => ?_, fun d q hd hw => ?_⟩ <;> by_cases hdc : d = c
    · simp [hdc]
    · dsimp only
      rw [Function.update_of_ne hdc]
      exact h.recorded d hd
    · subst hdc
      dsimp only at hd ⊢
      rw [Function.update_self, Option.some.injEq] at hd
      subst hd
      exact Function.update_self ..
    · dsimp only at hd
      rw [Function.update_of_ne hdc] at hd
      exact h.own_update _ (fun c' => by rw [hp]; nofun) d q hd hw
  | registration e r hg hr =>
    refine ⟨h.registrations.step hr, fun c hc => ?_, h.own⟩
    rcases started_of_registrationStep hr hc with hc | rfl
    · exact h.recorded c hc
    · exact Option.isSome_iff_ne_none.1 hg
  | waitReturns c p hk hc =>
    refine ⟨h.registrations, h.recorded, fun d q hd hw => ?_⟩
    dsimp only at hd hw ⊢
    have hdc : d ≠ c := by
      rintro rfl
      rw [Function.update_self] at hw
      cases hw
    rw [Function.update_of_ne hdc] at hw
    have hq := h.own d q hd hw
    -- the id released is not that of another shell
    have hqp : q ≠ p := by
      rintro rfl
      rw [h.own c q hk hc] at hq
      cases hq
      exact hdc rfl
    rw [Function.update_of_ne hqp]
    exact hq
  | processStarts p k hp =>
    exact ⟨h.registrations, h.recorded, h.own_update _ fun c => by rw [hp]; nofun⟩
  | processExits p k hp =>
    exact ⟨h.registrations, h.recorded, h.own_update _ fun c => by rw [hp]; nofun⟩
  | lookup i id hi => exact ⟨h.registrations, h.recorded, h.own⟩
  | kill i c hi => exact ⟨h.registrations, h.recorded, h.own⟩

/-- The invocation of the killer of an inserted session before `child.wait` has returned. -/
theorem Inv.target_eq {s : KillHost} (h : s.Inv) {c : SessionRef}
    (hi : (s.registrations.creations c).inserted = true) (hw : s.waited c = false) :
    (s.signal c).target = some (.shell c) := by
  have hst : (s.registrations.creations c).started .reader = true := by
    simp only [Creation.inserted, decide_eq_true_eq] at hi
    simp [Creation.started, hi]
  obtain ⟨p, hp⟩ := Option.ne_none_iff_exists'.1 (h.recorded c hst)
  rw [signal, hp, Option.bind_some]
  exact h.own c p hp hw

theorem Guarded.step {s s' : KillHost} {e : KillEvent} (hinv : s.Inv) (h : s.Guarded)
    (hok : KillsFirst s e) (hs : killStep s e = some s') : s'.Guarded := by
  cases killStep_cases hs with
  | spawnCommand c p hc hp => exact ⟨h.held, h.safe⟩
  | registration e r hg hr =>
    refine ⟨fun i c hi => ?_, h.safe⟩
    exact ⟨inserted_of_registrationStep hr c (h.held i c hi).1, (h.held i c hi).2⟩
  | waitReturns c p hk hc =>
    refine ⟨fun i d hi => ⟨(h.held i d hi).1, ?_⟩, h.safe⟩
    have hdc : d ≠ c := by
      rintro rfl
      exact hok i hi
    dsimp only
    rw [Function.update_of_ne hdc]
    exact (h.held i d hi).2
  | processStarts p k hp => exact ⟨h.held, h.safe⟩
  | processExits p k hp => exact ⟨h.held, h.safe⟩
  | lookup i id hi =>
    refine ⟨fun j c hj => ?_, h.safe⟩
    dsimp only at hj ⊢
    by_cases hji : j = i
    · subst hji
      rw [Function.update_self, found] at hj
      cases hg : s.registrations.registry.get id with
      | none =>
        rw [hg] at hj
        cases hj
      | some d =>
        rw [hg] at hj
        cases hj
        exact ⟨((hinv.registrations c).keyed id hg).2, hok c hg⟩
    · rw [Function.update_of_ne hji] at hj
      exact h.held j c hj
  | kill i c hi =>
    refine ⟨fun j d hj => ?_, fun g hg => ?_⟩
    · dsimp only at hj
      by_cases hji : j = i
      · subst hji
        rw [Function.update_self] at hj
        cases hj
      · rw [Function.update_of_ne hji] at hj
        exact h.held j d hj
    · obtain ⟨hins, hw⟩ := h.held i c hi
      rcases List.mem_append.1 hg with hg | hg
      · exact h.safe g hg
      · rw [List.mem_singleton.1 hg]
        exact ⟨hw, hinv.target_eq hins hw⟩

end KillHost

theorem kill_inv {s : KillHost} (hs : killSystem.Reachable s) : s.Inv := by
  refine System.invariant (fun s hi => ?_) (fun s e s' h hst => h.step hst) hs
  rw [show s = _ from hi]
  exact ⟨fun c => ⟨MarkEnded.ok_new, fun _ _ => rfl, nofun⟩, fun c => nofun, fun c p => nofun⟩

theorem safe_of_killsFirst {s : KillHost} (hs : killSystem.ReachableWith KillsFirst s) :
    s.Safe := by
  have h : s.Inv ∧ s.Guarded := by
    refine System.invariant_with (I := fun s => s.Inv ∧ s.Guarded) (fun s hi => ?_)
      (fun s e s' h hok hst => ⟨h.1.step hst, h.2.step h.1 hok hst⟩) hs
    refine ⟨kill_inv (.init hi), ?_⟩
    rw [show s = _ from hi]
    exact ⟨fun i c => nofun, fun g => nofun⟩
  exact h.2.safe

/-- A request that holds a reaped session signals it next. -/
theorem not_safe_of_holding {s : KillHost} {i : ℕ} {c : SessionRef}
    (hi : s.requests i = .holding c) (hw : s.waited c = true) :
    ∃ es s', killSystem.run s es = some s' ∧ ¬ s'.Safe := by
  have hkill : killSystem.step s (.kill i) = some { s with
      requests := Function.update s.requests i (.answered .ok)
      signals := s.signals ++ [s.signal c] } := by
    simp only [killSystem, killStep, hi]
  refine ⟨[.kill i], _, (System.run_singleton _ _).trans hkill, fun hsafe => ?_⟩
  have hr := (hsafe (s.signal c) (by simp)).1
  rw [show (s.signal c).reaped = s.waited c from rfl, hw] at hr
  cases hr

/-- **A `Kill` signals the session's own unreaped shell** in every run where no `child.wait`
returns while a request holds its session and no request finds a session whose `child.wait` has
returned; after a step that is otherwise, a signal can go astray. -/
theorem kill_signals_own_shell (s : KillHost)
    (hs : killSystem.ReachableWith KillsFirst s) :
    s.Safe ∧
      ∀ e s', ¬ KillsFirst s e → killStep s e = some s' →
        ∃ es s'', killSystem.run s' es = some s'' ∧ ¬ s''.Safe := by
  refine ⟨safe_of_killsFirst hs, fun e s' hok hst => ?_⟩
  cases killStep_cases hst with
  | waitReturns c p hk hc =>
    simp only [KillsFirst, not_forall, not_not] at hok
    obtain ⟨i, hi⟩ := hok
    exact not_safe_of_holding (i := i) (c := c) hi (Function.update_self ..)
  | lookup i id hi =>
    simp only [KillsFirst, not_forall] at hok
    obtain ⟨c, hc, hw⟩ := hok
    refine not_safe_of_holding (i := i) (c := c) ?_ (eq_true_of_ne_false hw)
    dsimp only
    rw [Function.update_self, KillHost.found, hc]
  | _ => exact absurd trivial hok

/-- A shell is killed, and reaped after that. -/
def liveKillRun : List KillEvent :=
  [.registration (.draw 0 7), .spawnCommand 0 100, .registration (.startReader 0),
    .registration (.startReaper 0), .registration (.insert 0), .lookup 0 (hex8 7), .kill 0,
    .waitReturns 0, .registration (.mark 0 .reaper)]

theorem kill_signals_own_shell_liveKillRun :
    ∃ s, killSystem.run KillHost.new liveKillRun = some s ∧
      s.signals = [⟨0, false, some (.shell 0)⟩] ∧ s.waited 0 = true ∧ s.Safe := by
  have hrun : killSystem.run KillHost.new liveKillRun = some _ := rfl
  have hok : killSystem.RunMeets KillsFirst KillHost.new liveKillRun := by
    refine ⟨trivial, trivial, trivial, trivial, trivial, fun c _ => rfl, trivial, ?_, trivial,
      trivial⟩
    rintro (_ | i) hi
    · cases hi
    · cases hi
  exact ⟨_, hrun, rfl, rfl,
    (kill_signals_own_shell _ ((System.ReachableWith.init rfl).run_meets hok hrun)).1⟩

/-- The shell exits and is reaped between the two steps of a request; another process gets its
id. -/
def staleKillRun : List KillEvent :=
  [.registration (.draw 0 7), .spawnCommand 0 100, .registration (.startReader 0),
    .registration (.startReaper 0), .registration (.insert 0), .lookup 0 (hex8 7),
    .waitReturns 0, .registration (.mark 0 .reaper), .processStarts 100 1, .kill 0]

/-- The other process gets the signal. -/
theorem not_kill_signals_own_shell : ¬ ∀ s, killSystem.Reachable s → s.Safe := by
  intro h
  have hrun : ∃ s, killSystem.run KillHost.new staleKillRun = some s ∧
      s.signals = [⟨0, true, some (.other 1)⟩] := ⟨_, rfl, rfl⟩
  obtain ⟨s, hs, hsig⟩ := hrun
  have hsafe := h s (System.reachable_of_run staleKillRun rfl hs) ⟨0, true, some (.other 1)⟩
    (by rw [hsig]; exact List.mem_singleton_self _)
  cases hsafe.1

end Thther
