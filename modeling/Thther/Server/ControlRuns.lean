import Thther.Server.ControlPlane

/-!
# Runs of the control plane

The steps that serve one client, from the request of its agent to the answer that `ssh` hands on,
two clients that are served after each other, and a crowd of which nobody is done.

* `ControlSetup.Ready.run_receive`, `ControlSetup.Ready.run_answered`: the way there and back;
* `run_creating`, `run_looking`: what the daemon does in between.
-/

namespace Thther

/-- The client runs its agent with this request, at the daemon's port or at none, and the agent
finds the daemon. -/
structure ControlSetup.Ready (T : ControlSetup) (i : ℕ) (cfg : Config) (target : String)
    (op : ControlRequest) (json : String) : Prop where
  plain : (T.client i).cli.cmd.plain = true
  loaded : loadClientConfig (T.loaded i) (T.client i).cli = .ok cfg
  target : cfg.requireSshTarget T.path = .ok target
  request : (T.client i).cli.cmd.request (T.client i).size = some op
  port : ∀ q ∈ cfg.port, q.1 = T.port
  connect : (T.client i).agent.connect 0 = .ok
  json : T.requests.toString (obtainRequest op (cfg.port.map Subtype.val)) = .ok json

variable {T : ControlSetup} {s : ControlPlane} {i : ℕ}

namespace ControlSetup

section Plan

variable {op : ControlRequest} {port : Option NonZeroU16}

theorem plan_eq_some (h : T.plan i = some (op, port)) :
    ∃ cfg target, loadClientConfig (T.loaded i) (T.client i).cli = .ok cfg ∧
      cfg.requireSshTarget T.path = .ok target ∧ port = cfg.port ∧
      (T.client i).cli.cmd.request (T.client i).size = some op := by
  unfold plan at h
  split_ifs at h
  split at h
  · cases h
  · rename_i cfg hcfg
    split at h
    · cases h
    · rename_i target htarget
      obtain ⟨op', hop, heq⟩ := Option.map_eq_some_iff.1 h
      cases heq
      exact ⟨cfg, target, hcfg, htarget, rfl, hop⟩

/-- A client that has been started as it should runs its agent with its request. -/
theorem plan_of_load {cfg : Config} {target : String}
    (hplain : (T.client i).cli.cmd.plain = true)
    (hcfg : loadClientConfig (T.loaded i) (T.client i).cli = .ok cfg)
    (htarget : cfg.requireSshTarget T.path = .ok target)
    (hop : (T.client i).cli.cmd.request (T.client i).size = some op) :
    T.plan i = some (op, cfg.port) := by
  unfold plan
  rw [if_pos hplain, hcfg]
  dsimp only
  rw [htarget, hop]
  rfl

theorem plan_isOperation (h : T.plan i = some (op, port)) : op.isOperation = true := by
  obtain ⟨-, -, -, -, -, hop⟩ := plan_eq_some h
  cases hcmd : (T.client i).cli.cmd <;> rw [hcmd] at hop <;> cases hop <;> rfl

end Plan

variable {cfg : Config} {target json : String} {op : ControlRequest}

theorem Ready.plan (h : T.Ready i cfg target op json) : T.plan i = some (op, cfg.port) :=
  plan_of_load h.plain h.loaded h.target h.request

/-- The agent brings its line. -/
theorem Ready.step_receive (h : T.Ready i cfg target op json) (hw : s.requests i = .waiting) :
    controlStep T s (.receive i (json ++ "\n")) =
      some (s.setRequest i (.received (json ++ "\n"))) := by
  have hwrites : T.writes i (json ++ "\n") = true := by
    unfold writes
    rw [h.plan]
    dsimp only
    rw [Agent.submitted_obtain (w := T.agent i .timesOut) h.connect h.json]
    exact List.isPrefixOf_iff_prefix.2 List.prefix_rfl
  simp [controlStep, hw, hwrites]

/-- The guards let it through. -/
theorem Ready.handled_line (hreq : T.requests.Lawful) (h : T.Ready i cfg target op json) :
    T.handled (json ++ "\n") = .operation op := by
  unfold handled
  rw [if_neg (by simp), trimmed_line hreq h.json, hreq.fromStr _ _ h.json]
  dsimp only
  have hport : ∀ p ∈ cfg.port.map Subtype.val, p = T.port := by
    intro p hp
    obtain ⟨q, hq, rfl⟩ := Option.map_eq_some_iff.1 hp
    exact h.port q hq
  obtain ⟨hadm, hop⟩ := admitted_obtainRequest (plan_isOperation h.plan) hport
  rw [guardControl_eq_ok.2 ⟨hadm, rfl⟩, hop]

/-- The request arrives. -/
theorem Ready.run_receive (hreq : T.requests.Lawful) (h : T.Ready i cfg target op json)
    (hw : s.requests i = .waiting) :
    (controlSystem T).run s [.receive i (json ++ "\n"), .handle i] =
      some (s.setRequest i (.operation op)) := by
  refine System.run_pair (h.step_receive hw) ?_
  simp [controlSystem, controlStep, ControlPlane.setRequest, h.handled_line hreq]

/-- The client reads the answer that has been written for it. -/
theorem Ready.step_finish (hresp : T.responses.Lawful) (h : T.Ready i cfg target op json)
    {r : ControlResponse} {out : String} {action : ClientAction} (hres : s.results i = none)
    (hi : s.requests i = .written (out.toList ++ ['\n'])) (hout : T.responses.toString r = .ok out)
    (hshows : (T.client i).cli.cmd.Shows T.path cfg r action) :
    controlStep T s (.finish i (.line (out ++ "\n")) (.agent "" [] [])) =
      some { s with results := Function.update s.results i (some (.ok action)) } := by
  have hans : (Agent.obtain (T.agent i (.line (out ++ "\n"))) op cfg.port).result = .ok r := by
    refine Agent.result_obtain h.connect ⟨json, out ++ "\n", h.json, rfl, by simp, ?_⟩
    change T.responses.fromStr (trimmed (out ++ "\n")) = .ok r
    rw [trimmed_line hresp hout, hresp.fromStr _ _ hout]
  have hssh : T.sshEnd i (.line (out ++ "\n")) (.agent "" [] []) =
      some (.exits true "" (out.toList ++ ['\n']) []) := by
    unfold sshEnd
    rw [h.plan]
    dsimp only
    rw [hans, agentOutput, agentAnswer, hout]
    simp [Except.map]
  have hshown : dispatch T.responses T.debug T.path T.version (T.loaded i) (T.client i).cli
      (T.client i).size (fun _ => .exits true "" (out.toList ++ ['\n']) []) = .ok action :=
    dispatch_of_shows h.loaded h.request
      (@runSsh_printed _ hresp _ _ _ _ _ _ _ _ _ [] _ _ h.target rfl (.inl rfl) hout) hshows
  simp [controlStep, hi, hres, hssh, hshown, ServePhase.delivers]

/-- The answer is written, and the client reads it. -/
theorem Ready.run_answered (hresp : T.responses.Lawful) (h : T.Ready i cfg target op json)
    {r : ControlResponse} {out : String} {action : ClientAction} (hres : s.results i = none)
    (hi : s.requests i = .answered r) (hout : T.responses.toString r = .ok out)
    (hshows : (T.client i).cli.cmd.Shows T.path cfg r action) :
    (controlSystem T).run s [.write i, .finish i (.line (out ++ "\n")) (.agent "" [] [])] = some
      { s with
        requests := Function.update s.requests i (.written (out.toList ++ ['\n']))
        results := Function.update s.results i (some (.ok action)) } := by
  have hwrite : controlStep T s (.write i) =
      some (s.setRequest i (.written (out.toList ++ ['\n']))) := by
    simp [controlStep, hi, hout]
  exact System.run_pair hwrite
    (h.step_finish hresp hres (Function.update_self _ _ _) hout hshows)

end ControlSetup

/-- A `Create` whose id is free. -/
theorem run_creating {n : UInt32} (now : UInt64) (shell : String) (psk : Psk)
    (hi : s.requests i = .creating) (hnew : s.registrations.creations i = Creation.new)
    (hn : s.registrations.registry.contains (hex8 n) = false) :
    (controlSystem T).run s [.draw i n, .spawn i now shell psk, .startReaper i, .insert i,
      .created i] = some
        { registrations :=
            ⟨s.registrations.registry.insert (hex8 n) i, Function.update s.registrations.creations i
              { Creation.new with phase := .returned, id := hex8 n }⟩
          sessions := Function.update s.sessions i
            (SessionShared.new (hex8 n) now shell T.ringBytes psk)
          requests := Function.update s.requests i
            (.answered (.bootstrap T.port (hex8 n) (hexEncode psk.toList)))
          minted := s.minted ++ [⟨i, i, psk⟩]
          results := s.results } := by
  simp [controlSystem, controlStep, ControlPlane.register, ControlPlane.setRequest, hi, hnew, hn,
    registrationStep, Registrations.set, Creation.new, SessionShared.new]

/-- An `Attach` to a session that is neither ended nor busy. -/
theorem run_looking {id : String} {c : SessionRef} (psk : Psk) (hi : s.requests i = .looking id)
    (hget : s.registrations.registry.get id = some c)
    (hended : (s.registrations.creations c).ended = false)
    (hconnected : (s.sessions c).connected = false) (hid : (s.sessions c).id = id) :
    (controlSystem T).run s [.lookup i, .attach i .checkEnded, .attach i .checkConnected,
      .attach i (.rotate psk)] = some
        { s with
          sessions := Function.update s.sessions c ((s.deref c).rotatePsk psk)
          requests := Function.update s.requests i
            (.answered (.bootstrap T.port id (hexEncode psk.toList)))
          minted := s.minted ++ [⟨c, i, psk⟩] } := by
  simp [controlSystem, controlStep, ControlPlane.setRequest, ControlPlane.deref, hi, hget,
    attachStep, hended, hconnected, SessionShared.rotatePsk, hid]

/-! ### Two clients -/

/-- A key. -/
def bytePsk (b : UInt8) : Psk := Vector.replicate 32 b

/-- The requests of the two clients below, and the answers. -/
def pairRequest (i : ℕ) : String :=
  "\x7b\"op\":\"on_protocol\",\"version\":2,\"request\":" ++
    if i = 0 then "\x7b\"op\":\"create\",\"cols\":80,\"rows\":24\x7d\x7d"
    else "\x7b\"op\":\"attach\",\"id\":\"00000007\"\x7d\x7d"

def pairAnswer (b : UInt8) : String :=
  "\x7b\"bootstrap\":\x7b\"port\":60000,\"id\":\"00000007\",\"psk_hex\":\"" ++
    hexEncode (bytePsk b).toList ++ "\"\x7d\x7d"

/-- Two clients: the first creates the session that the other one attaches to. -/
def pairSetup : ControlSetup where
  port := 60000
  ringBytes := 4096
  requests := Json.table
    [(.onProtocol 2 (.create 80 24), pairRequest 0),
      (.onProtocol 2 (.attach "00000007"), pairRequest 1)]
  responses := Json.table
    ([1, 2].map fun b =>
      (.bootstrap 60000 "00000007" (hexEncode (bytePsk b).toList), pairAnswer b))
  toml _ := .error ""
  debug := String.quote
  path := "config.toml"
  version := "0.1.0"
  client i :=
    { cli := ⟨some "user@host", none, none, if i = 0 then .create else .attach "00000007"⟩
      file := .notFound
      size := none
      agent :=
        { sock := "control.sock"
          daemonLog := "daemon.log"
          connect := fun _ => .ok
          connectError := fun _ => ""
          exchanged := fun _ => .timesOut
          tryWait := fun _ => .ok .running
          config := .ok Config.default.toPortConfig
          prepare := .ok ()
          spawned := .ok ()
          toJson := fun _ => .error ""
          fromLine := fun _ => .error "" } }

def pairStart : ControlPlane :=
  ⟨⟨Registry.new, fun _ => Creation.new⟩, fun _ => SessionShared.new "" 0 "" 0 (bytePsk 0),
    fun _ => .waiting, [], fun _ => none⟩

theorem pairSetup_lawful : pairSetup.requests.Lawful ∧ pairSetup.responses.Lawful :=
  ⟨Json.table_lawful (by decide +kernel) (by decide +kernel),
    Json.table_lawful (by decide +kernel) (by decide +kernel)⟩

/-- The configuration of both. -/
def pairConfig : Config := { Config.default with sshTarget := some "user@host" }

theorem pairSetup_ready :
    pairSetup.Ready 0 pairConfig "user@host" (.create 80 24) (pairRequest 0) ∧
      pairSetup.Ready 1 pairConfig "user@host" (.attach "00000007") (pairRequest 1) :=
  ⟨⟨rfl, rfl, rfl, rfl, nofun, rfl, by decide⟩, ⟨by decide, rfl, rfl, rfl, nofun, rfl, by decide⟩⟩

theorem pairSetup_shows (b : UInt8) : ∃ host, pairConfig.resolveTcpHost "config.toml" = .ok host ∧
    openSession host (.bootstrap 60000 "00000007" (hexEncode (bytePsk b).toList)) =
      .ok (.interactive "host" 60000 "00000007" (bytePsk b)) := by
  refine ⟨"host", by decide, ?_⟩
  rw [openSession, parsePsk_hexEncode]
  rfl

theorem pairSetup_writes (b : UInt8) (hb : b = 1 ∨ b = 2) : pairSetup.responses.toString
    (.bootstrap 60000 "00000007" (hexEncode (bytePsk b).toList)) = .ok (pairAnswer b) := by
  rcases hb with rfl | rfl <;> decide

/-- The first client has created its session. -/
theorem exists_firstRun : ∃ es s, (controlSystem pairSetup).run pairStart es = some s ∧
    s.results = Function.update pairStart.results 0
      (some (.ok (.interactive "host" 60000 "00000007" (bytePsk 1)))) ∧
    s.requests 1 = .waiting ∧ s.registrations.registry.get "00000007" = some 0 ∧
    (s.registrations.creations 0).ended = false ∧ (s.sessions 0).connected = false ∧
    (s.sessions 0).id = "00000007" ∧ s.minted = [⟨0, 0, bytePsk 1⟩] := by
  obtain ⟨h₀, -⟩ := pairSetup_ready
  obtain ⟨hreq, hresp⟩ := pairSetup_lawful
  have hreceive := h₀.run_receive hreq (s := pairStart) rfl
  have hcreating := run_creating (T := pairSetup) (s := pairStart.setRequest 0 .creating) (i := 0)
    (n := 7) 1000 "/bin/sh" (bytePsk 1) rfl rfl rfl
  refine ⟨_, _, System.run_trans hreceive (System.run_trans hcreating
    (h₀.run_answered hresp rfl rfl (pairSetup_writes 1 (.inl rfl)) (pairSetup_shows 1))), ?_⟩
  exact ⟨rfl, rfl, rfl, rfl, rfl, rfl, rfl⟩

/-- Both clients go on with the session. -/
theorem exists_pairRun : ∃ s, (controlSystem pairSetup).Reachable s ∧
    s.results 0 = some (.ok (.interactive "host" 60000 "00000007" (bytePsk 1))) ∧
    s.results 1 = some (.ok (.interactive "host" 60000 "00000007" (bytePsk 2))) ∧
    s.minted = [⟨0, 0, bytePsk 1⟩, ⟨0, 1, bytePsk 2⟩] := by
  obtain ⟨-, h₁⟩ := pairSetup_ready
  obtain ⟨hreq, hresp⟩ := pairSetup_lawful
  obtain ⟨es, s, hrun, hresults, hw, hget, hended, hconnected, hid, hm⟩ := exists_firstRun
  have hlooking := run_looking (T := pairSetup) (s := s.setRequest 1 (.looking "00000007"))
    (bytePsk 2) (Function.update_self _ _ _) hget hended hconnected hid
  have hnone : s.results 1 = none := by
    rw [hresults]
    rfl
  refine ⟨_, System.reachable_of_run _ ⟨rfl, fun _ => rfl, rfl, fun _ => rfl⟩
    (System.run_trans hrun (System.run_trans (h₁.run_receive hreq hw) (System.run_trans hlooking
      (h₁.run_answered hresp hnone rfl (pairSetup_writes 2 (.inr rfl)) (pairSetup_shows 2))))),
    ?_, ?_, ?_⟩
  · dsimp only
    rw [Function.update_of_ne (by decide), show (s.setRequest 1 _).results = _ from hresults]
    rfl
  · dsimp only
    rw [Function.update_self]
  · dsimp only
    rw [show (s.setRequest 1 _).minted = _ from hm]
    rfl

/-! ### A crowd -/

/-- What each of four clients asks for. -/
def crowdCmd (i : ℕ) : Cmd :=
  match i % 4 with
  | 0 => .create
  | 1 => .attach "00000007"
  | 2 => .ls
  | _ => .kill "00000007"

/-- The requests of the last two. -/
def lsRequest : String := "\x7b\"op\":\"ls\"\x7d"

def killRequest : String := "\x7b\"op\":\"kill\",\"id\":\"00000007\"\x7d"

/-- The line of the first session, and the answer that lists it alone. -/
def firstInfo : SessionInfo := ⟨"00000007", 1000, "detached", "/bin/sh"⟩

def lsAnswer : String :=
  "\x7b\"ls\":\x7b\"sessions\":[\x7b\"id\":\"00000007\",\"started\":1000," ++
    "\"status\":\"detached\",\"cmd\":\"/bin/sh\"\x7d]\x7d\x7d"

def secondAnswer : String :=
  "\x7b\"bootstrap\":\x7b\"port\":60000,\"id\":\"00000009\",\"psk_hex\":\"" ++
    hexEncode (bytePsk 1).toList ++ "\"\x7d\x7d"

/-- Any number of clients. -/
def crowdSetup : ControlSetup :=
  { pairSetup with
    requests := Json.table
      [(.onProtocol 2 (.create 80 24), pairRequest 0),
        (.onProtocol 2 (.attach "00000007"), pairRequest 1), (.ls, lsRequest),
        (.kill "00000007", killRequest)]
    responses := Json.table
      [(.bootstrap 60000 "00000007" (hexEncode (bytePsk 1).toList), pairAnswer 1),
        (.bootstrap 60000 "00000007" (hexEncode (bytePsk 2).toList), pairAnswer 2),
        (.bootstrap 60000 "00000009" (hexEncode (bytePsk 1).toList), secondAnswer),
        (.ls [firstInfo], lsAnswer), (.ok, "\"ok\"")]
    client i :=
      { pairSetup.client i with cli := ⟨some "user@host", none, none, crowdCmd i⟩ } }

theorem crowdSetup_lawful : crowdSetup.requests.Lawful ∧ crowdSetup.responses.Lawful :=
  ⟨Json.table_lawful (by decide +kernel) (by decide +kernel),
    Json.table_lawful (by decide +kernel) (by decide +kernel)⟩

theorem crowdSetup_ready (i : ℕ) {op : ControlRequest} (json : String)
    (hplain : (crowdCmd i).plain = true) (hop : (crowdCmd i).request none = some op)
    (hjson : crowdSetup.requests.toString (obtainRequest op none) = .ok json) :
    crowdSetup.Ready i pairConfig "user@host" op json :=
  ⟨hplain, rfl, rfl, hop, nofun, rfl, hjson⟩

/-- One client has its answer but for the last step, one has drawn its id, one looks at the
session it attaches to, one has its list and one is about to kill. -/
theorem exists_crowdRun : ∃ s, (controlSystem crowdSetup).Reachable s ∧
    (s.requests 0 = .answered (.bootstrap 60000 "00000007" (hexEncode (bytePsk 1).toList)) ∧
      s.requests 4 = .creating ∧ (s.registrations.creations 4).phase = .drawn ∧
      s.requests 1 = .attaching "00000007" 0 .live ∧
      s.requests 2 = .answered (.ls (ControlPlane.byAge [firstInfo])) ∧
      s.requests 3 = .killing 0) ∧
    (∀ i, 5 ≤ i → s.requests i = .waiting) ∧ (∀ i, s.results i = none) ∧
    s.registrations.registry.get "00000007" = some 0 ∧
    s.registrations.registry.contains (hex8 9) = false ∧
    (s.registrations.creations 0).ended = false ∧ (s.sessions 0).connected = false ∧
    s.yields [firstInfo] = true := by
  obtain ⟨hreq, -⟩ := crowdSetup_lawful
  have h₀ : crowdSetup.Ready 0 pairConfig "user@host" (.create 80 24) (pairRequest 0) :=
    crowdSetup_ready _ _ rfl rfl (by decide)
  have h₄ : crowdSetup.Ready 4 pairConfig "user@host" (.create 80 24) (pairRequest 0) :=
    crowdSetup_ready _ _ rfl rfl (by decide)
  have h₁ : crowdSetup.Ready 1 pairConfig "user@host" (.attach "00000007") (pairRequest 1) :=
    crowdSetup_ready _ _ (by decide) rfl (by decide)
  have h₂ : crowdSetup.Ready 2 pairConfig "user@host" .ls lsRequest :=
    crowdSetup_ready _ _ rfl rfl (by decide)
  have h₃ : crowdSetup.Ready 3 pairConfig "user@host" (.kill "00000007") killRequest :=
    crowdSetup_ready _ _ (by decide) rfl (by decide)
  have hrun := h₀.run_receive hreq (s := pairStart) rfl
  have hrun := System.run_trans hrun
    (run_creating (T := crowdSetup) (i := 0) (n := 7) 1000 "/bin/sh" (bytePsk 1) rfl rfl rfl)
  have hrun := System.run_trans hrun (h₄.run_receive hreq rfl)
  have hrun := System.run_trans hrun
    (show (controlSystem crowdSetup).run _ [.draw 4 8] = some _ from rfl)
  have hrun := System.run_trans hrun (h₁.run_receive hreq rfl)
  have hrun := System.run_trans hrun (show (controlSystem crowdSetup).run _
    [.lookup 1, .attach 1 .checkEnded] = some _ from rfl)
  have hrun := System.run_trans hrun (h₂.run_receive hreq rfl)
  have hrun := System.run_trans hrun
    (show (controlSystem crowdSetup).run _ [.list 2 [firstInfo]] = some _ from rfl)
  have hrun := System.run_trans hrun (h₃.run_receive hreq rfl)
  have hrun := System.run_trans hrun
    (show (controlSystem crowdSetup).run _ [.lookupKill 3] = some _ from rfl)
  refine ⟨_, System.reachable_of_run _ ⟨rfl, fun _ => rfl, rfl, fun _ => rfl⟩ hrun,
    ⟨rfl, rfl, rfl, rfl, rfl, rfl⟩, fun i hi => ?_, fun _ => rfl, rfl, rfl, rfl, rfl, rfl⟩
  have hne : i ≠ 0 ∧ i ≠ 1 ∧ i ≠ 2 ∧ i ≠ 3 ∧ i ≠ 4 := by omega
  simp [ControlPlane.setRequest, Function.update_of_ne, hne, pairStart]

end Thther
