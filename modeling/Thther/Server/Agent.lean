import Thther.Proto.Control
import Thther.Server.Startup

/-!
# The `__serve` agent (`server/agent.rs`)

`Agent.obtain` sends one control request to the daemon, starting it for a `Create` where no daemon
listens.  An `Agent α` is what a run of the agent does to the outside, in order, and what it
returns; what it finds there is an `AgentWorld`, which says for every attempt how `connect`, the
exchange on the connection and `try_wait` turn out.  An error is its chain of contexts, outermost
first.

* `Agent.tryRequestAt_cases`: one attempt;
* `Agent.Settles`: what a part of the agent does with the socket, and the rules to compose it;
* `Agent.obtain_answer`: where the answer comes from;
* `obtain_submits_once`: the request is submitted once at most, also where a daemon is started.
-/

namespace Thther

/-- What becomes of an exchange, once the request is being written. -/
inductive Exchanged
  /-- The five seconds pass first, at any `await`. -/
  | timesOut
  /-- `write_all`, `flush` or `read_line` fails. -/
  | fails (e : String)
  /-- What `read_line` reads; nothing at the end of the stream. -/
  | line (s : String)

/-- What `try_wait` finds. -/
inductive ChildStatus
  | running
  | exitedWell
  | exitedBadly (status : String)

/-- What the agent finds, by the number of the attempt. -/
structure AgentWorld where
  sock : String
  daemonLog : String
  connect : ℕ → ConnectResult
  /-- The text of a `connect` error. -/
  connectError : ℕ → String
  exchanged : ℕ → Exchanged
  tryWait : ℕ → Except String ChildStatus
  /-- `Config::load`. -/
  config : Except (List String) PortConfig
  /-- What `spawn_daemon` does before the spawn, and the spawn. -/
  prepare : Except String Unit
  spawned : Except String Unit
  /-- `serde_json::to_string`. -/
  toJson : ControlRequest → Except String String
  /-- `serde_json::from_str` of the trimmed line. -/
  fromLine : String → Except String ControlResponse

/-- What the agent does to the outside. -/
inductive AgentAction
  /-- `UnixStream::connect` -/
  | connect (res : ConnectResult)
  /-- `write_all` of the request -/
  | submit (line : String)
  /-- `cmd.spawn()` -/
  | spawn (port : Option NonZeroU16)
  | sleep
  /-- `child.try_wait()` -/
  | wait

namespace AgentAction

def isConnect : AgentAction → Bool
  | connect _ => true
  | _ => false

def isSubmit : AgentAction → Bool
  | submit _ => true
  | _ => false

def isSpawn : AgentAction → Bool
  | spawn _ => true
  | _ => false

/-- Neither a connection nor anything written to one. -/
def isQuiet : AgentAction → Bool
  | connect .ok => false
  | submit _ => false
  | _ => true

end AgentAction

/-- What a part of the agent does, and what it returns. -/
structure Agent (α : Type) where
  actions : List AgentAction
  result : Except (List String) α

namespace Agent

variable {α β : Type}

instance : Monad Agent where
  pure a := ⟨[], .ok a⟩
  bind x f :=
    match x.result with
    | .error e => ⟨x.actions, .error e⟩
    | .ok a => ⟨x.actions ++ (f a).actions, (f a).result⟩

/-- One action, with its result. -/
def act (a : AgentAction) (result : Except (List String) α) : Agent α := ⟨[a], result⟩

def fail (e : List String) : Agent α := ⟨[], .error e⟩

/-- `context`. -/
def context (text : String) (x : Agent α) : Agent α :=
  ⟨x.actions, x.result.mapError fun e => text :: e⟩

/-- A result of the standard library, passed on by `?`. -/
def ofResult (r : Except String α) : Except (List String) α := r.mapError fun e => [e]

/-- `exchange`, under the timeout of `try_request_at`. -/
def exchange (w : AgentWorld) (attempt : ℕ) (req : ControlRequest) : Agent ControlResponse :=
  match w.toJson req with
  | .error e => fail [e]
  | .ok line => act (.submit (line ++ "\n")) <|
    match w.exchanged attempt with
    | .timesOut => .error ["daemon control request timed out", "deadline has elapsed"]
    | .fails e => .error [e]
    | .line s =>
      if s = "" then .error ["daemon closed the connection without a response"]
      else
        match w.fromLine s with
        | .error e => .error ["invalid daemon response", e]
        | .ok r => .ok r

/-- The context of a failed exchange. -/
def olderVersion (req : ControlRequest) : String :=
  match req with
  | .onPort port _ =>
    s!"daemon could not process the request for TCP port {port}; if it is an older version, " ++
      "upgrade and manually restart it (restarting ends its sessions)"
  | _ => "daemon control request failed; if it is an older version, upgrade and manually " ++
      "restart it after finishing its sessions (restarting ends its sessions)"

/-- `try_request_at`: nothing means that there is no listener. -/
def tryRequestAt (w : AgentWorld) (attempt : ℕ) (req : ControlRequest) :
    Agent (Option ControlResponse) := do
  match ← act (.connect (w.connect attempt)) (.ok (w.connect attempt)) with
  | .notFound | .refused => pure none
  | .other => fail [s!"connect to {w.sock}", w.connectError attempt]
  | .ok =>
    let r ← (exchange w attempt req).context (olderVersion req)
    pure (some r)

/-- `spawn_daemon`. -/
def spawnDaemon (w : AgentWorld) (port : Option NonZeroU16) : Agent Unit :=
  match w.prepare with
  | .error e => fail [e]
  | .ok () => act (.spawn port) (ofResult w.spawned)

/-- The check of the child in `start_and_request`. -/
def checkChild (w : AgentWorld) (attempt : ℕ) : Agent Unit := do
  match ← act .wait (ofResult (w.tryWait attempt)) with
  | .exitedBadly status => fail [s!"daemon exited with {status}"]
  | .running | .exitedWell => pure ()

/-- The polls of `start_and_request` that are left, from the given attempt on. -/
def poll (w : AgentWorld) (req : ControlRequest) (attempt : ℕ) : ℕ → Agent ControlResponse
  | 0 => fail ["daemon did not come up"]
  | left + 1 => do
    act .sleep (.ok ())
    match ← tryRequestAt w attempt req with
    | some r => pure r
    | none =>
      checkChild w attempt
      poll w req (attempt + 1) left

/-- `start_and_request`. -/
def startAndRequest (w : AgentWorld) (req : ControlRequest) (port : Option NonZeroU16) :
    Agent ControlResponse := do
  (spawnDaemon w port).context "spawn daemon"
  poll w req 1 40

/-- The context of a failed start. -/
def startingDaemon (w : AgentWorld) (cfg : PortConfig) (port : Option NonZeroU16) : String :=
  let selection := match port with
    | none => s!"TCP port range {cfg.portRange.1}-{cfg.portRange.2}"
    | some port => s!"TCP port {port.1}"
  s!"starting daemon on {selection}; see server log {w.daemonLog}"

/-- `obtain`. -/
def obtain (w : AgentWorld) (req : ControlRequest) (port : Option NonZeroU16) :
    Agent ControlResponse := do
  let line := obtainRequest req (port.map Subtype.val)
  match ← tryRequestAt w 0 line with
  | some r => pure r
  | none =>
    match req with
    | .create _ _ =>
      let cfg ← ⟨[], w.config⟩
      let port := port.or cfg.port
      (startAndRequest w line port).context (startingDaemon w cfg port)
    | .ls => pure (.ls [])
    | _ => fail ["no daemon running"]

/-! ## What the parts do -/

theorem bind_ok {x : Agent α} {a : α} (h : x.result = .ok a) (f : α → Agent β) :
    x >>= f = ⟨x.actions ++ (f a).actions, (f a).result⟩ := by
  change (match x.result with
    | .error e => (⟨x.actions, .error e⟩ : Agent β)
    | .ok a => ⟨x.actions ++ (f a).actions, (f a).result⟩) = _
  rw [h]

theorem bind_error {x : Agent α} {e : List String} (h : x.result = .error e)
    (f : α → Agent β) : x >>= f = ⟨x.actions, .error e⟩ := by
  change (match x.result with
    | .error e => (⟨x.actions, .error e⟩ : Agent β)
    | .ok a => ⟨x.actions ++ (f a).actions, (f a).result⟩) = _
  rw [h]

@[simp] theorem pure_actions (a : α) : (pure a : Agent α).actions = [] := rfl

@[simp] theorem pure_result (a : α) : (pure a : Agent α).result = .ok a := rfl

@[simp] theorem context_actions (text : String) (x : Agent α) :
    (x.context text).actions = x.actions := rfl

@[simp] theorem context_ok_iff {text : String} {x : Agent α} {a : α} :
    (x.context text).result = .ok a ↔ x.result = .ok a := by
  cases h : x.result <;> simp [context, Except.mapError, h]

/-- The daemon gives a valid answer on the connection of this attempt. -/
def Answers (w : AgentWorld) (attempt : ℕ) (req : ControlRequest) (r : ControlResponse) : Prop :=
  ∃ line s, w.toJson req = .ok line ∧ w.exchanged attempt = .line s ∧ s ≠ "" ∧ w.fromLine s = .ok r

/-- Nothing, or the line of the request. -/
def Submits (w : AgentWorld) (req : ControlRequest) (acts : List AgentAction) : Prop :=
  acts = [] ∨ ∃ line, w.toJson req = .ok line ∧ acts = [.submit (line ++ "\n")]

variable {w : AgentWorld} {n : ℕ} {req : ControlRequest}

theorem exchange_submits (w : AgentWorld) (n : ℕ) (req : ControlRequest) :
    Submits w req (exchange w n req).actions := by
  unfold exchange
  cases h : w.toJson req with
  | error e => exact .inl rfl
  | ok line => exact .inr ⟨line, h, rfl⟩

theorem exchange_ok_iff {r : ControlResponse} :
    (exchange w n req).result = .ok r ↔ Answers w n req r := by
  unfold exchange Answers
  cases h : w.toJson req with
  | error e => simp [fail]
  | ok line =>
    cases hx : w.exchanged n with
    | timesOut => simp [act]
    | fails e => simp [act]
    | line s =>
      by_cases hs : s = ""
      · simp [act, hs]
      · cases hf : w.fromLine s <;> simp [act, hs, hf]

/-- One attempt finds no listener, fails to connect, or is settled on its connection. -/
theorem tryRequestAt_cases (w : AgentWorld) (n : ℕ) (req : ControlRequest) :
    ((w.connect n = .notFound ∨ w.connect n = .refused) ∧
        tryRequestAt w n req = ⟨[.connect (w.connect n)], .ok none⟩) ∨
      (∃ e, tryRequestAt w n req = ⟨[.connect .other], .error e⟩) ∨
      ∃ subs result, tryRequestAt w n req = ⟨.connect .ok :: subs, result⟩ ∧
        Submits w req subs ∧ result ≠ .ok none ∧
        ∀ r, result = .ok (some r) ↔ Answers w n req r := by
  unfold tryRequestAt
  rw [bind_ok (a := w.connect n) rfl]
  cases hc : w.connect n with
  | notFound => exact .inl ⟨.inl rfl, rfl⟩
  | refused => exact .inl ⟨.inr rfl, rfl⟩
  | other => exact .inr (.inl ⟨_, rfl⟩)
  | ok =>
    refine .inr (.inr ⟨_, _, rfl, ?_⟩)
    set x := (exchange w n req).context (olderVersion req) with hx
    have hsub : Submits w req x.actions := exchange_submits w n req
    have hans : ∀ r, x.result = .ok r ↔ Answers w n req r :=
      fun r => context_ok_iff.trans exchange_ok_iff
    cases hr : x.result with
    | error e =>
      rw [hr] at hans
      simp only [bind_error hr]
      exact ⟨hsub, nofun, fun r => by simpa using hans r⟩
    | ok r =>
      rw [hr] at hans
      simp only [bind_ok hr, pure_actions, pure_result, List.append_nil]
      exact ⟨hsub, nofun, fun r => by simpa using hans r⟩

/-! ## The whole procedure -/

/-- The part `x` makes its attempts from number `n` on, at most `m` of them, and starts at most
`k` daemons.  It never connects, or it submits the request on the one connection it makes, does
nothing more, and returns the answer on it. -/
structure Settles (w : AgentWorld) (req : ControlRequest) (n m k : ℕ)
    (x : Agent ControlResponse) : Prop where
  connects : x.actions.countP AgentAction.isConnect ≤ m
  spawns : x.actions.countP AgentAction.isSpawn ≤ k
  settled : (∀ a ∈ x.actions, a.isQuiet = true) ∨
    ∃ before subs, x.actions = before ++ .connect .ok :: subs ∧
      (∀ a ∈ before, a.isQuiet = true) ∧ Submits w req subs ∧
      ∀ r, x.result = .ok r ↔ Answers w (n + before.countP AgentAction.isConnect) req r

theorem quiet_not_submit {acts : List AgentAction} (hq : ∀ a ∈ acts, a.isQuiet = true) :
    acts.countP AgentAction.isSubmit = 0 := by
  refine List.countP_eq_zero.mpr fun a ha hs => ?_
  have hqa := hq a ha
  cases a <;> simp [AgentAction.isSubmit, AgentAction.isQuiet] at hs hqa

theorem quiet_not_connect {acts : List AgentAction} (hq : ∀ a ∈ acts, a.isQuiet = true) :
    .connect .ok ∉ acts :=
  fun h => absurd (hq _ h) nofun

namespace Settles

variable {m k : ℕ} {x : Agent ControlResponse}

theorem context (h : Settles w req n m k x) (text : String) :
    Settles w req n m k (x.context text) where
  connects := h.connects
  spawns := h.spawns
  settled := by
    rcases h.settled with hq | ⟨before, subs, hx, hq, hsub, hans⟩
    · exact .inl hq
    · exact .inr ⟨before, subs, hx, hq, hsub, fun r => context_ok_iff.trans (hans r)⟩

theorem mono {m' k' : ℕ} (h : Settles w req n m k x) (hm : m ≤ m') (hk : k ≤ k') :
    Settles w req n m' k' x :=
  ⟨Nat.le_trans h.connects hm, Nat.le_trans h.spawns hk, h.settled⟩

/-- What comes before the first connection may be put in front. -/
theorem after {acts : List AgentAction} {c d : ℕ} (hq : ∀ a ∈ acts, a.isQuiet = true)
    (hc : acts.countP AgentAction.isConnect = c) (hd : acts.countP AgentAction.isSpawn = d)
    (h : Settles w req (n + c) m k x) :
    Settles w req n (c + m) (d + k) ⟨acts ++ x.actions, x.result⟩ where
  connects := by
    rw [List.countP_append, hc]
    exact Nat.add_le_add_left h.connects c
  spawns := by
    rw [List.countP_append, hd]
    exact Nat.add_le_add_left h.spawns d
  settled := by
    rcases h.settled with hx | ⟨before, subs, hx, hb, hsub, hans⟩
    · exact .inl (List.forall_mem_append.mpr ⟨hq, hx⟩)
    · refine .inr ⟨acts ++ before, subs, ?_, List.forall_mem_append.mpr ⟨hq, hb⟩, hsub, ?_⟩
      · rw [hx, List.append_assoc]
      · intro r
        rw [List.countP_append, hc, ← Nat.add_assoc]
        exact hans r

/-- A part that leaves the socket alone, and what follows it. -/
theorem bind {y : Agent α} {d : ℕ} {f : α → Agent ControlResponse}
    (hq : ∀ a ∈ y.actions, a.isQuiet = true) (hc : y.actions.countP AgentAction.isConnect = 0)
    (hd : y.actions.countP AgentAction.isSpawn = d) (h : ∀ a, Settles w req n m k (f a)) :
    Settles w req n m (d + k) (y >>= f) := by
  cases hy : y.result with
  | error e =>
    rw [bind_error hy]
    exact ⟨Nat.le_trans (Nat.le_of_eq hc) (Nat.zero_le _),
      Nat.le_trans (Nat.le_of_eq hd) (Nat.le_add_right _ _), .inl hq⟩
  | ok a =>
    rw [bind_ok hy]
    simpa using (h a).after hq hc hd

/-- An attempt, and what follows it where there is no listener. -/
theorem attempt {f : Option ControlResponse → Agent ControlResponse}
    (hsome : ∀ r, f (some r) = pure r)
    (hnone : w.connect n = .notFound ∨ w.connect n = .refused →
      Settles w req (n + 1) m k (f none)) :
    Settles w req n (m + 1) k (tryRequestAt w n req >>= f) := by
  rcases tryRequestAt_cases w n req with ⟨habs, h⟩ | ⟨e, h⟩ | ⟨subs, result, h, hsub, hne, hans⟩
  · rw [h, bind_ok rfl]
    have hq : ∀ a ∈ [AgentAction.connect (w.connect n)], a.isQuiet = true := by
      rcases habs with hc | hc <;> simp [hc, AgentAction.isQuiet]
    have h' := (hnone habs).after (c := 1) (d := 0) hq rfl rfl
    rw [Nat.add_comm 1 m, Nat.zero_add] at h'
    exact h'
  · rw [h, bind_error rfl]
    exact ⟨by simp [AgentAction.isConnect], by simp [AgentAction.isSpawn],
      .inl (by simp [AgentAction.isQuiet])⟩
  · have hsubs : subs.countP AgentAction.isConnect = 0 ∧ subs.countP AgentAction.isSpawn = 0 := by
      rcases hsub with rfl | ⟨line, -, rfl⟩ <;> exact ⟨rfl, rfl⟩
    have hx : ∃ result', tryRequestAt w n req >>= f = ⟨.connect .ok :: subs, result'⟩ ∧
        ∀ r, result' = .ok r ↔ Answers w n req r := by
      rw [h]
      match result, hne, hans with
      | .error e, _, hans => exact ⟨_, bind_error rfl f, fun r => by simpa using hans r⟩
      | .ok none, hne, _ => exact absurd rfl hne
      | .ok (some r'), _, hans =>
        refine ⟨.ok r', ?_, fun r => by simpa using hans r⟩
        rw [bind_ok rfl, hsome]
        simp
    obtain ⟨result', hx, hans'⟩ := hx
    rw [hx]
    refine ⟨?_, ?_, .inr ⟨[], subs, rfl, by simp, hsub, hans'⟩⟩
    · rw [List.countP_cons, hsubs.1]
      exact Nat.le_add_left _ _
    · rw [List.countP_cons, hsubs.2]
      exact Nat.zero_le _

/-- The request is written once at most. -/
theorem submits_le (h : Settles w req n m k x) : x.actions.countP AgentAction.isSubmit ≤ 1 := by
  rcases h.settled with hq | ⟨before, subs, hx, hq, hsub, -⟩
  · exact Nat.le_trans (Nat.le_of_eq (quiet_not_submit hq)) (Nat.zero_le 1)
  · rw [hx, List.countP_append, quiet_not_submit hq, Nat.zero_add]
    rcases hsub with rfl | ⟨line, -, rfl⟩
    · exact Nat.zero_le 1
    · exact Nat.le_refl 1

theorem submit_mem (h : Settles w req n m k x) {s : String} (hs : .submit s ∈ x.actions) :
    ∃ json, w.toJson req = .ok json ∧ s = json ++ "\n" := by
  rcases h.settled with hq | ⟨before, subs, hx, hq, hsub, -⟩
  · exact absurd (hq _ hs) nofun
  · rw [hx] at hs
    rcases List.mem_append.mp hs with hs | hs
    · exact absurd (hq _ hs) nofun
    · rcases hsub with rfl | ⟨line, hl, rfl⟩ <;> simp at hs
      exact ⟨line, hl, hs⟩

/-- A connection is the first one and the last one. -/
theorem split (h : Settles w req n m k x) {before post : List AgentAction}
    (hx : x.actions = before ++ .connect .ok :: post) :
    (∀ a ∈ before, a.isQuiet = true) ∧ (∀ a ∈ post, a.isSubmit = true) ∧
      ∀ r, x.result = .ok r ↔
        Answers w (n + before.countP AgentAction.isConnect) req r := by
  rcases h.settled with hq | ⟨before', subs, hx', hq, hsub, hans⟩
  · exact absurd (by simp [hx]) (quiet_not_connect hq)
  · have hsubs : ∀ a ∈ subs, a.isSubmit = true := by
      rcases hsub with rfl | ⟨line, -, rfl⟩ <;> simp [AgentAction.isSubmit]
    have hnotin : .connect .ok ∉ subs := fun hm => absurd (hsubs _ hm) nofun
    obtain ⟨rfl, -, rfl⟩ := (List.append_cons_inj_of_notMem (quiet_not_connect hq) hnotin).mp
      (hx'.symm.trans hx)
    exact ⟨hq, hsubs, hans⟩

end Settles

theorem settles_of_nil {x : Agent ControlResponse} (m k : ℕ) (hx : x.actions = []) :
    Settles w req n m k x := by
  constructor <;> simp [hx]

theorem checkChild_actions (w : AgentWorld) (attempt : ℕ) :
    (checkChild w attempt).actions = [.wait] := by
  unfold checkChild
  cases h : w.tryWait attempt with
  | error e => rw [bind_error (e := [e]) rfl]; rfl
  | ok status =>
    rw [bind_ok (a := status) rfl]
    cases status <;> rfl

theorem poll_settles (w : AgentWorld) (req : ControlRequest) (n left : ℕ) :
    Settles w req n left 0 (poll w req n left) := by
  induction left generalizing n with
  | zero => exact settles_of_nil 0 0 rfl
  | succ left ih =>
    rw [poll]
    refine Settles.bind (y := act .sleep (.ok ())) (d := 0) (k := 0)
      (by simp [act, AgentAction.isQuiet]) rfl rfl fun _ => ?_
    refine Settles.attempt (fun r => rfl) fun _ => ?_
    have hw := checkChild_actions w n
    exact Settles.bind (d := 0) (k := 0) (by simp [hw, AgentAction.isQuiet]) (by rw [hw]; rfl)
      (by rw [hw]; rfl) fun _ => ih (n + 1)

/-- At most one daemon, and then the polls. -/
theorem startAndRequest_settles (w : AgentWorld) (req : ControlRequest)
    (port : Option NonZeroU16) : Settles w req 1 40 1 (startAndRequest w req port) := by
  have hs : (spawnDaemon w port).actions = [] ∨ (spawnDaemon w port).actions = [.spawn port] := by
    unfold spawnDaemon
    cases w.prepare with
    | error e => exact .inl rfl
    | ok u => exact .inr rfl
  have hpoll : ∀ _ : Unit, Settles w req 1 40 0 (poll w req 1 40) :=
    fun _ => poll_settles w req 1 40
  unfold startAndRequest
  rcases hs with hs | hs
  · refine (Settles.bind (d := 0) ?_ ?_ ?_ hpoll).mono le_rfl (Nat.zero_le 1) <;>
      simp [hs]
  · refine Settles.bind (d := 1) ?_ ?_ ?_ hpoll <;>
      simp [hs, AgentAction.isQuiet, AgentAction.isConnect, AgentAction.isSpawn]

/-- The operation may start a daemon: a `Create` whose first attempt finds no listener. -/
def MayStart (w : AgentWorld) (req : ControlRequest) : Prop :=
  (∃ cols rows, req = .create cols rows) ∧ (w.connect 0 = .notFound ∨ w.connect 0 = .refused)

theorem tryRequestAt_bind_head (w : AgentWorld) (n : ℕ) (req : ControlRequest)
    (f : Option ControlResponse → Agent β) :
    (tryRequestAt w n req >>= f).actions.head? = some (.connect (w.connect n)) := by
  have hhead : ∃ acts, (tryRequestAt w n req).actions = .connect (w.connect n) :: acts := by
    unfold tryRequestAt
    rw [bind_ok rfl]
    exact ⟨_, rfl⟩
  obtain ⟨acts, hacts⟩ := hhead
  cases hr : (tryRequestAt w n req).result with
  | error e => rw [bind_error hr, hacts]; rfl
  | ok a => rw [bind_ok hr, hacts]; rfl

theorem obtain_head (w : AgentWorld) (req : ControlRequest) (port : Option NonZeroU16) :
    (Agent.obtain w req port).actions.head? = some (.connect (w.connect 0)) := by
  unfold Agent.obtain
  exact tryRequestAt_bind_head w 0 _ _

theorem obtain_settles (w : AgentWorld) (req : ControlRequest) (port : Option NonZeroU16)
    {k : ℕ} (hk : k = 0 → ¬ MayStart w req) :
    Settles w (obtainRequest req (port.map Subtype.val)) 0 41 k (Agent.obtain w req port) := by
  unfold Agent.obtain
  refine Settles.attempt (fun r => rfl) fun habs => ?_
  cases req with
  | create cols rows =>
    have hpos : 1 ≤ k := Nat.one_le_iff_ne_zero.mpr fun h => hk h ⟨⟨cols, rows, rfl⟩, habs⟩
    refine (Settles.bind (y := ⟨[], w.config⟩) nofun rfl rfl fun cfg => ?_).mono le_rfl
      (by simpa using hpos)
    exact (startAndRequest_settles w _ _).context _
  | ls => exact settles_of_nil 40 k rfl
  | _ => exact settles_of_nil 40 k rfl

/-! ## What the agent returns -/

section Answer

variable {r : ControlResponse}

/-- A composition that succeeds is one of two parts that do. -/
theorem of_bind_ok {x : Agent α} {f : α → Agent β} {b : β} (h : (x >>= f).result = .ok b) :
    ∃ a, x.result = .ok a ∧ (f a).result = .ok b := by
  cases hx : x.result with
  | error e =>
    rw [bind_error hx] at h
    cases h
  | ok a =>
    rw [bind_ok hx] at h
    exact ⟨a, rfl, h⟩

theorem tryRequestAt_answer (h : (tryRequestAt w n req).result = .ok (some r)) :
    Answers w n req r := by
  rcases tryRequestAt_cases w n req with ⟨-, hx⟩ | ⟨e, hx⟩ | ⟨subs, result, hx, -, -, hans⟩
  · rw [hx] at h
    cases h
  · rw [hx] at h
    cases h
  · rw [hx] at h
    exact (hans r).1 h

theorem poll_answer {left : ℕ} (h : (poll w req n left).result = .ok r) :
    ∃ k, Answers w k req r := by
  induction left generalizing n with
  | zero => cases h
  | succ left ih =>
    rw [poll] at h
    obtain ⟨-, -, h⟩ := of_bind_ok h
    obtain ⟨answer, hanswer, h⟩ := of_bind_ok h
    cases answer with
    | some r' =>
      cases h
      exact ⟨n, tryRequestAt_answer hanswer⟩
    | none =>
      obtain ⟨-, -, h⟩ := of_bind_ok h
      exact ih h

/-- What `obtain` returns is the answer of the daemon, but for `Ls` where there is none. -/
theorem obtain_answer {port : Option NonZeroU16} (h : (Agent.obtain w req port).result = .ok r) :
    (req = .ls ∧ r = .ls []) ∨ ∃ k, Answers w k (obtainRequest req (port.map Subtype.val)) r := by
  unfold Agent.obtain at h
  obtain ⟨answer, hanswer, h⟩ := of_bind_ok h
  cases answer with
  | some r' =>
    cases h
    exact .inr ⟨0, tryRequestAt_answer hanswer⟩
  | none =>
    cases req with
    | create cols rows =>
      obtain ⟨cfg, -, h⟩ := of_bind_ok h
      rw [context_ok_iff, startAndRequest] at h
      obtain ⟨-, -, h⟩ := of_bind_ok h
      exact .inr (poll_answer h)
    | ls =>
      cases h
      exact .inl ⟨rfl, rfl⟩
    | _ => cases h

end Answer

section Connect

variable {op : ControlRequest} {port : Option NonZeroU16}

/-- Where the daemon listens, the agent sends its request and returns the answer. -/
theorem obtain_of_connect (hc : w.connect 0 = .ok) :
    let req := obtainRequest op (port.map Subtype.val)
    Agent.obtain w op port = ⟨.connect .ok :: (exchange w 0 req).actions,
      ((exchange w 0 req).context (olderVersion req)).result⟩ := by
  intro req
  have htry : tryRequestAt w 0 req = ⟨.connect .ok :: (exchange w 0 req).actions,
      ((exchange w 0 req).context (olderVersion req)).result.map some⟩ := by
    unfold tryRequestAt
    rw [bind_ok (a := w.connect 0) rfl, hc]
    cases hr : ((exchange w 0 req).context (olderVersion req)).result with
    | error e =>
      simp only [bind_error hr]
      rfl
    | ok r =>
      simp only [bind_ok hr, pure_actions, List.append_nil]
      rfl
  unfold Agent.obtain
  dsimp only
  rw [htry]
  cases ((exchange w 0 req).context (olderVersion req)).result with
  | error e => rw [bind_error rfl]
  | ok r =>
    rw [bind_ok rfl]
    simp

theorem result_obtain {r : ControlResponse} (hc : w.connect 0 = .ok)
    (h : Answers w 0 (obtainRequest op (port.map Subtype.val)) r) :
    (Agent.obtain w op port).result = .ok r := by
  rw [obtain_of_connect hc]
  exact context_ok_iff.2 (exchange_ok_iff.2 h)

end Connect

end Agent

/-- For every history of the socket, of the exchanges and of the daemon: the request is written
once at most, after a connection the agent only submits and returns the answer it gets there, and
it starts a daemon once at most, for a `Create` that finds no listener at first. -/
theorem obtain_submits_once (w : AgentWorld) (req : ControlRequest) (port : Option NonZeroU16) :
    let line := obtainRequest req (port.map Subtype.val)
    let x := Agent.obtain w req port
    x.actions.countP AgentAction.isSubmit ≤ 1 ∧
      (∀ s, .submit s ∈ x.actions → ∃ json, w.toJson line = .ok json ∧ s = json ++ "\n") ∧
      (∀ before post, x.actions = before ++ .connect .ok :: post →
        (∀ a ∈ before, a.isQuiet = true) ∧ (∀ a ∈ post, a.isSubmit = true) ∧
          ∀ r, x.result = .ok r ↔
            Agent.Answers w (before.countP AgentAction.isConnect) line r) ∧
      x.actions.countP AgentAction.isSpawn ≤ 1 ∧
      (∀ p, .spawn p ∈ x.actions → (∃ cols rows, req = .create cols rows) ∧
        (x.actions.head? = some (.connect .notFound) ∨
          x.actions.head? = some (.connect .refused))) ∧
      x.actions.countP AgentAction.isConnect ≤ 41 := by
  intro line x
  have hx : Agent.Settles w line 0 41 1 x := Agent.obtain_settles w req port (by simp)
  have hhead : x.actions.head? = some (.connect (w.connect 0)) := Agent.obtain_head w req port
  refine ⟨hx.submits_le, fun s hs => hx.submit_mem hs, fun before post hp => ?_, hx.spawns,
    fun p hp => ?_, hx.connects⟩
  · simpa using hx.split hp
  · have hmay : Agent.MayStart w req := by
      by_contra hno
      have h0 := (Agent.obtain_settles w req port (k := 0) fun _ => hno).spawns
      exact absurd rfl (List.countP_eq_zero.mp (Nat.le_zero.mp h0) _ hp)
    rw [hhead]
    exact ⟨hmay.1, hmay.2.imp (fun h => by rw [h]) fun h => by rw [h]⟩

end Thther
