import Thther.Client.Command
import Thther.Server.Registration
import Thther.Server.Session

/-!
# The control plane

Any number of clients that run `thther` with `ssh`, the agent and `handle_control`, and one daemon
that serves them beside one another: every request access by access, as in `registrationSystem`
and `sessionSystem`, with the ends of sessions and the stores of `connected` between them.

What a process finds outside is part of the event or of its `ClientWorld`.  Either side of a
control connection may read only a first part of what the other has written; `ssh` hands on what
the agent has printed, after whole lines of a login shell.  A connection that is not of a client
with a `plan` may bring anything.  `minted` is a history variable.

* `controlSystem`: all of it, step by step;
* `controlStep_cases`: what a step can do.
-/

namespace Thther

/-- What a client is started with, and what its agent finds. -/
structure ClientWorld where
  cli : Cli
  /-- `~/.thther/config.toml` on the client's side -/
  file : Config.File
  size : Option (UInt16 × UInt16)
  agent : AgentWorld

/-- The daemon's port and ring size, the JSON of the messages, and the clients; `toml` is
`toml::from_str`, `debug` the `{:?}` of a `&str` and `path` the name of the clients' configuration
file. -/
structure ControlSetup where
  port : UInt16
  ringBytes : ℕ
  requests : Json ControlRequest
  responses : Json ControlResponse
  toml : String → Except String Config
  debug : String → String
  path : String
  version : String
  client : ℕ → ClientWorld

/-- What `Config::load` returns to a client. -/
def ControlSetup.loaded (T : ControlSetup) (i : ℕ) : Except (List String) Config :=
  Config.load T.path T.toml (T.client i).file

/-- The request of a client that gets as far as `ssh`, and the port it asks for.  Nothing is known
of a client whose id the remote shell may take apart. -/
def ControlSetup.plan (T : ControlSetup) (i : ℕ) : Option (ControlRequest × Option NonZeroU16) :=
  if (T.client i).cli.cmd.plain then
    match loadClientConfig (T.loaded i) (T.client i).cli with
    | .error _ => none
    | .ok cfg =>
      match cfg.requireSshTarget T.path with
      | .error _ => none
      | .ok _ => ((T.client i).cli.cmd.request (T.client i).size).map fun op => (op, cfg.port)
  else none

/-- The agent of a client, with the outcome of its exchange. -/
def ControlSetup.agent (T : ControlSetup) (i : ℕ) (x : Exchanged) : AgentWorld :=
  { (T.client i).agent with
    exchanged := fun _ => x
    toJson := T.requests.toString
    fromLine := fun s => T.responses.fromStr (trimmed s) }

/-- The line the agent writes to the daemon. -/
def submitted (acts : List AgentAction) : Option String :=
  acts.findSome? fun
    | .submit line => some line
    | _ => none

/-- Where `handle_control` is on a connection; the comment names the step that comes next. -/
inductive ServePhase
  /-- `read_line` -/
  | waiting
  /-- `from_str` and the guards -/
  | received (line : String)
  /-- a step of the `Creation` of this number -/
  | creating
  /-- `registry.get` of an `Attach` -/
  | looking (id : String)
  /-- the next access of the `Attach` -/
  | attaching (id : String) (c : SessionRef) (a : AttachPhase)
  /-- `registry.list` -/
  | listing
  /-- `registry.get` of a `Kill` -/
  | killLooking (id : String)
  /-- `kill` -/
  | killing (c : SessionRef)
  /-- `write_all` of the answer -/
  | answered (r : ControlResponse)
  | written (line : List Char)
  /-- `handle_control` has returned an error. -/
  | closed

/-- A key of a session, and the request it was drawn for. -/
structure Minted where
  session : SessionRef
  request : ℕ
  psk : Psk
  deriving DecidableEq

/-- The daemon with its sessions and its control connections, and the clients that are done.  A
connection, and the session its `Create` makes, has the number of its client. -/
structure ControlPlane where
  registrations : Registrations
  /-- The sessions, but for `ended`, which is in `registrations`. -/
  sessions : SessionRef → SessionShared
  requests : ℕ → ServePhase
  /-- Every key drawn, oldest first. -/
  minted : List Minted
  results : ℕ → Option (Except (List String) ClientAction)

/-- How `ssh` ends. -/
inductive SshResult
  /-- The agent has exited successfully. -/
  | agent (status : String) (noise stderr : List Char)
  /-- It has not, or nothing is known of it. -/
  | other (e : SshEnd)

inductive ControlEvent
  /-- The daemon reads the line of the agent, or the first part of it. -/
  | receive (i : ℕ) (part : String)
  | handle (i : ℕ)
  | draw (i : ℕ) (n : UInt32)
  | spawnFails (i : ℕ) (e : String)
  /-- The shell is started, and the PTY reader thread. -/
  | spawn (i : ℕ) (now : UInt64) (shell : String) (psk : Psk)
  | startReaper (i : ℕ)
  | insert (i : ℕ)
  /-- The answer to a `Create` is made. -/
  | created (i : ℕ)
  | mark (c : SessionRef) (t : EndThread)
  /-- A connection of the session stores `connected`. -/
  | store (c : SessionRef) (value : Bool)
  | lookup (i : ℕ)
  | attach (i : ℕ) (e : AttachEvent)
  /-- `registry.list`, with what it finds. -/
  | list (i : ℕ) (values : List SessionInfo)
  | lookupKill (i : ℕ)
  | kill (i : ℕ)
  | write (i : ℕ)
  /-- The client is done with the bootstrap. -/
  | finish (i : ℕ) (x : Exchanged) (ssh : SshResult)

namespace ControlPlane

def setRequest (s : ControlPlane) (i : ℕ) (phase : ServePhase) : ControlPlane :=
  { s with requests := Function.update s.requests i phase }

/-- A session, with its end. -/
def deref (s : ControlPlane) (c : SessionRef) : SessionShared :=
  { s.sessions c with ended := (s.registrations.creations c).ended }

/-- The sessions in the registry, but for the status. -/
def entries (s : ControlPlane) : List SessionInfo :=
  s.registrations.registry.map.entries.map fun e => { (s.deref e.2).info with status := "" }

/-- What `map.values()` may yield: every session, in any order, its status read at a moment of its
own. -/
def yields (s : ControlPlane) (values : List SessionInfo) : Bool :=
  (values.map fun a => { a with status := "" }).isPerm s.entries &&
    values.all fun a => a.status = "attached" || a.status = "detached"

/-- `sort_by` -/
def byAge (values : List SessionInfo) : List SessionInfo :=
  values.mergeSort fun a b => a.started ≤ b.started

/-- A step of the `Create` with number `i`. -/
def register (s : ControlPlane) (i : ℕ) (e : RegistrationEvent) : Option ControlPlane :=
  match s.requests i with
  | .creating => (registrationStep s.registrations e).map fun r => { s with registrations := r }
  | _ => none

end ControlPlane

section Step

variable (T : ControlSetup)

/-- The operation that `execute_control` comes to. -/
def ServePhase.operation : ControlRequest → ServePhase
  | .create _ _ => .creating
  | .attach id => .looking id
  | .ls => .listing
  | .kill id => .killLooking id
  | .onProtocol _ _ | .onPort _ _ => .closed

/-- `from_str` and the guards of `execute_control`. -/
def ControlSetup.handled (line : String) : ServePhase :=
  if line = "" then .closed
  else match T.requests.fromStr (trimmed line) with
  | .error _ => .closed
  | .ok req =>
    match guardControl T.port req with
    | .error message => .answered (.err message)
    | .ok op => .operation op

/-- The agent reads what is written for it, or the first part of it. -/
def ServePhase.delivers (phase : ServePhase) : Exchanged → Bool
  | .timesOut | .fails _ => true
  | .line s =>
    match phase with
    | .written line => s.toList.isPrefixOf line
    | _ => s = ""

/-- The connection of a client may bring this. -/
def ControlSetup.writes (i : ℕ) (part : String) : Bool :=
  match T.plan i with
  | none => true
  | some (op, port) =>
    match submitted (Agent.obtain (T.agent i .timesOut) op port).actions with
    | none => false
    | some line => part.toList.isPrefixOf line.toList

/-- What `ssh` hands to a client whose agent has exchanged `x`. -/
def ControlSetup.sshEnd (i : ℕ) (x : Exchanged) (ssh : SshResult) : Option SshEnd :=
  match T.plan i with
  | none =>
    match ssh with
    | .agent _ _ _ => none
    | .other e => some e
  | some (op, port) =>
    match ssh with
    | .agent status noise stderr =>
      match agentOutput T.responses (Agent.obtain (T.agent i x) op port).result with
      | .error _ => none
      | .ok out =>
        if noise = [] ∨ noise.getLast? = some '\n' then
          some (.exits true status (noise ++ out) stderr)
        else none
    | .other (.exits true _ _ _) => none
    | .other e => some e

/-- One event. -/
def controlStep (s : ControlPlane) : ControlEvent → Option ControlPlane
  | .receive i part =>
    match s.requests i with
    | .waiting => if T.writes i part then some (s.setRequest i (.received part)) else none
    | _ => none
  | .handle i =>
    match s.requests i with
    | .received line => some (s.setRequest i (T.handled line))
    | _ => none
  | .draw i n => s.register i (.draw i n)
  | .spawnFails i e =>
    (s.register i (.spawnFails i)).map fun s =>
      s.setRequest i (.answered (.err s!"spawn failed: {e}"))
  | .spawn i now shell psk =>
    (s.register i (.startReader i)).map fun s => { s with
      sessions := Function.update s.sessions i
        (SessionShared.new (s.registrations.creations i).id now shell T.ringBytes psk)
      minted := s.minted ++ [⟨i, i, psk⟩] }
  | .startReaper i => s.register i (.startReaper i)
  | .insert i => s.register i (.insert i)
  | .created i =>
    match s.requests i with
    | .creating =>
      if (s.registrations.creations i).phase = .returned then
        let session := s.sessions i
        some (s.setRequest i
          (.answered (.bootstrap T.port session.id (hexEncode session.psk.toList))))
      else none
    | _ => none
  | .mark c t =>
    (registrationStep s.registrations (.mark c t)).map fun r => { s with registrations := r }
  | .store c value =>
    some { s with sessions := Function.update s.sessions c ((s.sessions c).storeConnected value) }
  | .lookup i =>
    match s.requests i with
    | .looking id =>
      some (s.setRequest i (match s.registrations.registry.get id with
        | some c => .attaching id c .found
        | none => .answered (.err "no such session")))
    | _ => none
  | .attach i e =>
    match s.requests i with
    | .attaching id c a =>
      match attachStep (s.deref c) a e with
      | none => none
      | some (_, .refused message) => some (s.setRequest i (.answered (.err message)))
      | some (shared, .rotated psk) =>
        some { s.setRequest i (.answered (.bootstrap T.port shared.id (hexEncode psk.toList))) with
          sessions := Function.update s.sessions c shared
          minted := s.minted ++ [⟨c, i, psk⟩] }
      | some (_, a) => some (s.setRequest i (.attaching id c a))
    | _ => none
  | .list i values =>
    match s.requests i with
    | .listing =>
      if s.yields values then
        some (s.setRequest i (.answered (.ls (ControlPlane.byAge values))))
      else none
    | _ => none
  | .lookupKill i =>
    match s.requests i with
    | .killLooking id =>
      some (s.setRequest i (match s.registrations.registry.get id with
        | some c => .killing c
        | none => .answered (.err "no such session")))
    | _ => none
  | .kill i =>
    match s.requests i with
    | .killing c =>
      some { s.setRequest i (.answered .ok) with
        sessions := Function.update s.sessions c (s.sessions c).kill }
    | _ => none
  | .write i =>
    match s.requests i with
    | .answered r =>
      some (s.setRequest i (match T.responses.toString r with
        | .ok line => .written (line.toList ++ ['\n'])
        | .error _ => .closed))
    | _ => none
  | .finish i x ssh =>
    if s.results i = none ∧ (s.requests i).delivers x then
      (T.sshEnd i x ssh).map fun e =>
        { s with results := Function.update s.results i (some (dispatch T.responses T.debug T.path
            T.version (T.loaded i) (T.client i).cli (T.client i).size fun _ => e)) }
    else none

/-- All runs, from a daemon that has just started. -/
def controlSystem : System ControlPlane ControlEvent where
  init s := s.registrations = ⟨Registry.new, fun _ => Creation.new⟩ ∧
    (∀ i, s.requests i = .waiting) ∧ s.minted = [] ∧ ∀ i, s.results i = none
  step := controlStep T

/-! ### What a step can do -/

/-- `handle_control` goes on, and nothing else changes. -/
inductive ServeStep (s : ControlPlane) (i : ℕ) : ServePhase → ServePhase → Prop
  | received (part : String) : (∀ op port, T.plan i = some (op, port) →
        ∃ json, T.requests.toString (obtainRequest op (port.map Subtype.val)) = .ok json ∧
          part.toList <+: json.toList ++ ['\n']) →
      ServeStep s i .waiting (.received part)
  | handled (line : String) : ServeStep s i (.received line) (T.handled line)
  | created : (s.registrations.creations i).phase = .returned →
      ServeStep s i .creating (.answered
        (.bootstrap T.port (s.sessions i).id (hexEncode (s.sessions i).psk.toList)))
  | found (id : String) (c : SessionRef) : s.registrations.registry.get id = some c →
      ServeStep s i (.looking id) (.attaching id c .found)
  | attaching (id : String) (c : SessionRef) (a a' : AttachPhase) :
      ServeStep s i (.attaching id c a) (.attaching id c a')
  | listed (values : List SessionInfo) : s.yields values = true →
      ServeStep s i .listing (.answered (.ls (ControlPlane.byAge values)))
  | killing (id : String) (c : SessionRef) : s.registrations.registry.get id = some c →
      ServeStep s i (.killLooking id) (.killing c)
  | refused (phase : ServePhase) (message : String) :
      ServeStep s i phase (.answered (.err message))
  | written (r : ControlResponse) (json : String) : T.responses.toString r = .ok json →
      ServeStep s i (.answered r) (.written (json.toList ++ ['\n']))
  | closed (phase : ServePhase) : ServeStep s i phase .closed

/-- A request goes on, by itself or with the registrations or a session, or something else happens
to these, or a client is done. -/
inductive ControlStep (s : ControlPlane) : ControlPlane → Prop
  | serve (i : ℕ) (phase : ServePhase) : ServeStep T s i (s.requests i) phase →
      ControlStep s (s.setRequest i phase)
  | registration (e : RegistrationEvent) (r : Registrations) : (∀ c, e ≠ .startReader c) →
      (∀ c n, e = .draw c n → s.requests c = .creating) →
      registrationStep s.registrations e = some r → ControlStep s { s with registrations := r }
  | spawnFailed (i : ℕ) (r : Registrations) (message : String) : s.requests i = .creating →
      registrationStep s.registrations (.spawnFails i) = some r →
      ControlStep s ({ s with registrations := r }.setRequest i (.answered (.err message)))
  | spawned (i : ℕ) (now : UInt64) (shell : String) (psk : Psk) (r : Registrations) :
      s.requests i = .creating → registrationStep s.registrations (.startReader i) = some r →
      ControlStep s { s with
        registrations := r
        sessions := Function.update s.sessions i
          (SessionShared.new (r.creations i).id now shell T.ringBytes psk)
        minted := s.minted ++ [⟨i, i, psk⟩] }
  | stored (c : SessionRef) (value : Bool) :
      ControlStep s { s with
        sessions := Function.update s.sessions c ((s.sessions c).storeConnected value) }
  | rotated (i : ℕ) (id : String) (c : SessionRef) (a : AttachPhase) (psk : Psk) :
      s.requests i = .attaching id c a →
      ControlStep s { s.setRequest i
          (.answered (.bootstrap T.port (s.sessions c).id (hexEncode psk.toList))) with
        sessions := Function.update s.sessions c ((s.deref c).rotatePsk psk)
        minted := s.minted ++ [⟨c, i, psk⟩] }
  | killed (i : ℕ) (c : SessionRef) : s.requests i = .killing c →
      ControlStep s { s.setRequest i (.answered .ok) with
        sessions := Function.update s.sessions c (s.sessions c).kill }
  | finished (i : ℕ) (x : Exchanged) (ssh : SshResult) (e : SshEnd) : s.results i = none →
      (s.requests i).delivers x = true → T.sshEnd i x ssh = some e →
      ControlStep s { s with
        results := Function.update s.results i (some (dispatch T.responses T.debug T.path T.version
          (T.loaded i) (T.client i).cli (T.client i).size fun _ => e)) }

variable {T} {s s' : ControlPlane}

theorem submitted_mem {acts : List AgentAction} {line : String} (h : submitted acts = some line) :
    .submit line ∈ acts := by
  obtain ⟨a, ha, hline⟩ := List.exists_of_findSome?_eq_some h
  cases a with
  | submit line' =>
    cases hline
    exact ha
  | _ => cases hline

/-- Where the daemon listens, the agent writes its request. -/
theorem Agent.submitted_obtain {w : AgentWorld} {op : ControlRequest} {port : Option NonZeroU16}
    {json : String} (hc : w.connect 0 = .ok)
    (hjson : w.toJson (obtainRequest op (port.map Subtype.val)) = .ok json) :
    submitted (Agent.obtain w op port).actions = some (json ++ "\n") := by
  rw [obtain_of_connect hc]
  unfold exchange
  rw [hjson]
  rfl

/-- A client brings its request in one line, or the first part of it. -/
theorem ControlSetup.line_of_writes {i : ℕ} {part : String} {op : ControlRequest}
    {port : Option NonZeroU16} (h : T.writes i part = true) (hplan : T.plan i = some (op, port)) :
    ∃ json, T.requests.toString (obtainRequest op (port.map Subtype.val)) = .ok json ∧
      part.toList <+: json.toList ++ ['\n'] := by
  unfold writes at h
  rw [hplan] at h
  dsimp only at h
  split at h
  · cases h
  · rename_i line hline
    obtain ⟨json, hjson, rfl⟩ :=
      (Agent.obtain_settles (k := 1) _ op port nofun).submit_mem (submitted_mem hline)
    have hpart := List.isPrefixOf_iff_prefix.1 h
    rw [String.toList_append] at hpart
    exact ⟨json, hjson, hpart⟩

theorem ControlPlane.register_eq_some {i : ℕ} {e : RegistrationEvent}
    (h : s.register i e = some s') :
    s.requests i = .creating ∧
      ∃ r, registrationStep s.registrations e = some r ∧ s' = { s with registrations := r } := by
  unfold ControlPlane.register at h
  split at h
  · rename_i hi
    obtain ⟨r, hr, rfl⟩ := Option.map_eq_some_iff.1 h
    exact ⟨hi, r, hr, rfl⟩
  · cases h

/-- Only `rotate_psk` mints a key, and no other access changes the session. -/
theorem attachStep_eq_some {shared shared' : SessionShared} {a a' : AttachPhase} {e : AttachEvent}
    (h : attachStep shared a e = some (shared', a')) :
    (∃ psk, shared' = shared.rotatePsk psk ∧ a' = .rotated psk) ∨
      shared' = shared ∧ ∀ psk, a' ≠ .rotated psk := by
  cases e with
  | rotate psk =>
    simp only [attachStep] at h
    split_ifs at h
    cases h
    exact .inl ⟨psk, rfl, rfl⟩
  | _ =>
    simp only [attachStep] at h
    split_ifs at h <;> cases h <;> exact .inr ⟨rfl, nofun⟩

theorem controlStep_cases {e : ControlEvent} (h : controlStep T s e = some s') :
    ControlStep T s s' := by
  cases e with
  | receive i part =>
    simp only [controlStep] at h
    split at h
    · rename_i hi
      split_ifs at h with hw
      cases h
      exact .serve i _
        (hi ▸ .received part fun op port hplan => ControlSetup.line_of_writes hw hplan)
    · cases h
  | handle i =>
    simp only [controlStep] at h
    split at h
    · rename_i line hi
      cases h
      exact .serve i _ (hi ▸ .handled line)
    · cases h
  | draw i n =>
    obtain ⟨hi, r, hr, rfl⟩ := ControlPlane.register_eq_some h
    refine .registration (.draw i n) r nofun (fun c m he => ?_) hr
    cases he
    exact hi
  | spawnFails i e =>
    obtain ⟨s₁, h₁, rfl⟩ := Option.map_eq_some_iff.1 h
    obtain ⟨hi, r, hr, rfl⟩ := ControlPlane.register_eq_some h₁
    exact .spawnFailed i r _ hi hr
  | spawn i now shell psk =>
    obtain ⟨s₁, h₁, rfl⟩ := Option.map_eq_some_iff.1 h
    obtain ⟨hi, r, hr, rfl⟩ := ControlPlane.register_eq_some h₁
    exact .spawned i now shell psk r hi hr
  | startReaper i =>
    obtain ⟨-, r, hr, rfl⟩ := ControlPlane.register_eq_some h
    exact .registration (.startReaper i) r nofun nofun hr
  | insert i =>
    obtain ⟨-, r, hr, rfl⟩ := ControlPlane.register_eq_some h
    exact .registration (.insert i) r nofun nofun hr
  | created i =>
    simp only [controlStep] at h
    split at h
    · rename_i hi
      split_ifs at h with hp
      cases h
      exact .serve i _ (hi ▸ .created hp)
    · cases h
  | mark c t =>
    obtain ⟨r, hr, rfl⟩ := Option.map_eq_some_iff.1 h
    exact .registration (.mark c t) r nofun nofun hr
  | store c value =>
    cases h
    exact .stored c value
  | lookup i =>
    simp only [controlStep] at h
    split at h
    · rename_i id hi
      cases h
      refine .serve i _ ?_
      cases hg : s.registrations.registry.get id with
      | none => exact .refused _ _
      | some c => exact hi ▸ .found id c hg
    · cases h
  | attach i e =>
    simp only [controlStep] at h
    split at h
    · rename_i id c a hi
      split at h
      · cases h
      · cases h
        exact .serve i _ (.refused _ _)
      · rename_i shared psk hstep
        cases h
        rcases attachStep_eq_some hstep with ⟨psk', rfl, hp⟩ | ⟨-, hne⟩
        · cases hp
          exact .rotated i id c a psk hi
        · exact absurd rfl (hne psk)
      · cases h
        exact .serve i _ (hi ▸ .attaching id c a _)
    · cases h
  | list i values =>
    simp only [controlStep] at h
    split at h
    · rename_i hi
      split_ifs at h with hv
      cases h
      exact .serve i _ (hi ▸ .listed values hv)
    · cases h
  | lookupKill i =>
    simp only [controlStep] at h
    split at h
    · rename_i id hi
      cases h
      refine .serve i _ ?_
      cases hg : s.registrations.registry.get id with
      | none => exact .refused _ _
      | some c => exact hi ▸ .killing id c hg
    · cases h
  | kill i =>
    simp only [controlStep] at h
    split at h
    · rename_i c hi
      cases h
      exact .killed i c hi
    · cases h
  | write i =>
    simp only [controlStep] at h
    split at h
    · rename_i r hi
      cases h
      refine .serve i _ ?_
      cases hj : T.responses.toString r with
      | error e => exact .closed _
      | ok json => exact hi ▸ .written r json hj
    · cases h
  | finish i x ssh =>
    simp only [controlStep] at h
    split_ifs at h with hok
    obtain ⟨e, he, rfl⟩ := Option.map_eq_some_iff.1 h
    exact .finished i x ssh e hok.1 hok.2 he

end Step

end Thther
