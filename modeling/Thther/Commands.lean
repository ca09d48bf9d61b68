import Thther.Server.ControlSessions

/-!
# What a command that succeeds has done

`ControlPlane.Ok` holds in every state of `controlSystem`: how far each request is, and what its
answer says of the sessions.

* `ControlSetup.Serving.step`, `ControlSetup.done_of_finished`: a request that goes on, and a
  client that is done;
* `command_done`: whatever the other clients do, and wherever a connection is cut, a command that
  succeeds has had its effect.
-/

namespace Thther

/-! ### What commands do -/

section Done

variable (T : ControlSetup) (s : ControlPlane) (i : ℕ)

/-- The client asks for no port, or for the daemon's. -/
def ControlSetup.Selects : Prop :=
  ∀ cfg, loadClientConfig (T.loaded i) (T.client i).cli = .ok cfg →
    ∀ q ∈ cfg.port, q.1 = T.port

/-- The client goes on with the host it is configured for, the daemon's port, and an id that the
handshake takes. -/
structure ControlSetup.Opened (host : String) (p : UInt16) (c : SessionRef) (id : String) :
    Prop where
  host : ∃ cfg, loadClientConfig (T.loaded i) (T.client i).cli = .ok cfg ∧
    cfg.resolveTcpHost T.path = .ok host
  port : p = T.port
  selects : T.Selects i
  registered : s.Registered c id
  sent : (asBytes id).length = Handshake.sessionIdLen

/-- What a command has done that goes on like this. -/
def ControlSetup.Done (action : ClientAction) : Prop :=
  match (T.client i).cli.cmd, action with
  | .create, .interactive host p id psk =>
    T.Opened s i host p i id ∧ ∃ j, ⟨i, j, psk⟩ ∈ s.minted
  | .attach id', .interactive host p id psk =>
    id = id' ∧ ∃ c, T.Opened s i host p c id ∧ ⟨c, i, psk⟩ ∈ s.minted
  | .ls, .printed lines =>
    ∃ l, s.Listing l ∧ (l ≠ [] → T.Selects i) ∧ showSessions (.ls l) = .ok (.printed lines)
  | .kill id, .printed lines =>
    lines = ["killed " ++ id] ∧ T.Selects i ∧
      ∃ c, s.Registered c id ∧ 0 < (s.sessions c).kills
  | .connect host' id' psk', .interactive host p id psk =>
    host = host' ∧ (T.client i).cli.port.map Subtype.val = some p ∧ id = id' ∧
      parsePsk psk' = .ok psk
  | _, _ => False

end Done

/-! ### What requests do -/

section Serving

variable (T : ControlSetup) (s : ControlPlane) (i : ℕ)

/-- The operation has had its effect, and this is what it returns. -/
def ControlSetup.Performed : ControlRequest → ControlResponse → Prop
  | .create _ _, .bootstrap p id pskHex =>
    p = T.port ∧ s.Registered i id ∧
      ∃ j psk, ⟨i, j, psk⟩ ∈ s.minted ∧ pskHex = hexEncode psk.toList
  | .attach id', .bootstrap p id pskHex =>
    p = T.port ∧ id = id' ∧
      ∃ c psk, s.Registered c id ∧ ⟨c, i, psk⟩ ∈ s.minted ∧ pskHex = hexEncode psk.toList
  | .ls, .ls l => s.Listing l
  | .kill id, .ok => ∃ c, s.Registered c id ∧ 0 < (s.sessions c).kills
  | _, _ => False

/-- The answer is an error, or the operation of an admitted request is performed. -/
def ControlSetup.Answered (op : ControlRequest) (port : Option NonZeroU16)
    (r : ControlResponse) : Prop :=
  (∃ message, r = .err message) ∨ (∀ q ∈ port, q.1 = T.port) ∧ T.Performed s i op r

/-- How far the request of a client is. -/
def ControlSetup.Serving (op : ControlRequest) (port : Option NonZeroU16) : ServePhase → Prop
  | .waiting | .closed => True
  | .received line =>
    ∃ json, T.requests.toString (obtainRequest op (port.map Subtype.val)) = .ok json ∧
      line.toList <+: json.toList ++ ['\n']
  | .creating => (∀ q ∈ port, q.1 = T.port) ∧ ∃ cols rows, op = .create cols rows
  | .looking id => (∀ q ∈ port, q.1 = T.port) ∧ op = .attach id
  | .attaching id c _ => (∀ q ∈ port, q.1 = T.port) ∧ op = .attach id ∧ s.Registered c id
  | .listing => (∀ q ∈ port, q.1 = T.port) ∧ op = .ls
  | .killLooking id => (∀ q ∈ port, q.1 = T.port) ∧ op = .kill id
  | .killing c =>
    (∀ q ∈ port, q.1 = T.port) ∧ ∃ id, op = .kill id ∧ s.Registered c id
  | .answered r => T.Answered s i op port r
  | .written line =>
    ∃ r json, T.responses.toString r = .ok json ∧ line = json.toList ++ ['\n'] ∧
      T.Answered s i op port r

/-- The request of a client that is known is served. -/
def ControlSetup.Serves : Prop :=
  ∀ op port, T.plan i = some (op, port) → T.Serving s i op port (s.requests i)

end Serving

/-- What holds in every state. -/
structure ControlPlane.Ok (T : ControlSetup) (s : ControlPlane) : Prop where
  registrations : s.registrations.Inv
  filed : ∀ c, s.Filed c
  requests : ∀ i, T.Serves s i
  results : ∀ i action, (T.client i).cli.cmd.plain = true →
    s.results i = some (.ok action) → T.Done s i action

variable {T : ControlSetup} {s s' : ControlPlane} {i : ℕ}

/-! ### Requests -/

namespace ControlSetup

theorem Done.mono {action : ClientAction} (h : T.Done s i action) (hg : s.Grows s') :
    T.Done s' i action := by
  have hopened : ∀ {host p c id}, T.Opened s i host p c id → T.Opened s' i host p c id :=
    fun h => ⟨h.host, h.port, h.selects, hg.registered h.registered, h.sent⟩
  unfold Done at h ⊢
  split at h
  · obtain ⟨ho, j, hj⟩ := h
    exact ⟨hopened ho, j, hg.minted.subset hj⟩
  · obtain ⟨hid, c, ho, hm⟩ := h
    exact ⟨hid, c, hopened ho, hg.minted.subset hm⟩
  · obtain ⟨l, hl, hsel, hshow⟩ := h
    exact ⟨l, hl.mono hg, hsel, hshow⟩
  · obtain ⟨hlines, hsel, c, hc, hk⟩ := h
    exact ⟨hlines, hsel, c, hg.registered hc, hk.trans_le (hg.kills hc)⟩
  · exact h
  · exact h

theorem Performed.mono {op : ControlRequest} {r : ControlResponse} (h : T.Performed s i op r)
    (hg : s.Grows s') : T.Performed s' i op r := by
  unfold Performed at h ⊢
  split at h
  · obtain ⟨hp, hc, j, psk, hm, hhex⟩ := h
    exact ⟨hp, hg.registered hc, j, psk, hg.minted.subset hm, hhex⟩
  · obtain ⟨hp, hid, c, psk, hc, hm, hhex⟩ := h
    exact ⟨hp, hid, c, psk, hg.registered hc, hg.minted.subset hm, hhex⟩
  · exact h.mono hg
  · obtain ⟨c, hc, hk⟩ := h
    exact ⟨c, hg.registered hc, hk.trans_le (hg.kills hc)⟩
  · exact h

variable {op : ControlRequest} {port : Option NonZeroU16}

theorem Answered.mono {r : ControlResponse} (h : T.Answered s i op port r) (hg : s.Grows s') :
    T.Answered s' i op port r :=
  h.imp id fun h => ⟨h.1, h.2.mono hg⟩

theorem Serving.mono {phase : ServePhase} (h : T.Serving s i op port phase) (hg : s.Grows s') :
    T.Serving s' i op port phase := by
  cases phase with
  | attaching id c a => exact ⟨h.1, h.2.1, hg.registered h.2.2⟩
  | killing c =>
    obtain ⟨hport, id, hop, hc⟩ := h
    exact ⟨hport, id, hop, hg.registered hc⟩
  | answered r => exact Answered.mono h hg
  | written line =>
    obtain ⟨r, json, hjson, hline, hr⟩ := h
    exact ⟨r, json, hjson, hline, hr.mono hg⟩
  | _ => exact h

theorem Serves.mono (h : T.Serves s i) (hg : s.Grows s') (hi : s'.requests i = s.requests i) :
    T.Serves s' i :=
  fun op port hplan => hi ▸ (h op port hplan).mono hg

theorem selects_of_plan (h : T.plan i = some (op, port)) (hport : ∀ q ∈ port, q.1 = T.port) :
    T.Selects i := by
  obtain ⟨cfg, -, hcfg, -, rfl, -⟩ := plan_eq_some h
  intro cfg' hcfg'
  rw [hcfg] at hcfg'
  cases hcfg'
  exact hport

/-- What the guards let through is what was asked for, at the port asked for. -/
theorem guardControl_obtainRequest {p : UInt16} {op' : ControlRequest}
    (hop : op.isOperation = true)
    (h : guardControl p (obtainRequest op (port.map Subtype.val)) = .ok op') :
    op' = op ∧ ∀ q ∈ port, q.1 = p := by
  obtain ⟨hadm, rfl⟩ := guardControl_eq_ok.1 h
  cases port with
  | none =>
    have hnone : ∀ q ∈ (none : Option UInt16), q = p := by simp
    exact ⟨(admitted_obtainRequest hop hnone).2, nofun⟩
  | some q =>
    have hsome : ∀ q' ∈ some q.1, q' = q.1 := by simp
    refine ⟨(admitted_obtainRequest hop hsome).2, fun q' hq' => ?_⟩
    cases hq'
    exact hadm.ports q.1 List.mem_cons_self

/-- The daemon serves what the client asks for, or nothing. -/
theorem serving_handled (hreq : T.requests.Lawful) (hop : op.isOperation = true) {line : String}
    (h : T.Serving s i op port (.received line)) : T.Serving s i op port (T.handled line) := by
  obtain ⟨json, hjson, hline⟩ := h
  unfold handled
  split_ifs
  · trivial
  · rcases Lines.trim_isPrefix (hreq.line _ _ hjson) hline with htrim | ⟨htrim, hne⟩
    · rw [trimmed, htrim, String.ofList_toList, hreq.fromStr _ _ hjson]
      dsimp only
      cases hg : guardControl T.port (obtainRequest op (port.map Subtype.val)) with
      | error message => exact .inl ⟨message, rfl⟩
      | ok op' =>
        obtain ⟨rfl, hport⟩ := guardControl_obtainRequest hop hg
        cases op' with
        | create cols rows => exact ⟨hport, cols, rows, rfl⟩
        | attach id => exact ⟨hport, rfl⟩
        | ls => exact ⟨hport, rfl⟩
        | kill id => exact ⟨hport, rfl⟩
        | onProtocol version request => trivial
        | onPort q request => trivial
    · -- a request that is cut off is not read
      cases hread : T.requests.fromStr (trimmed line) with
      | error e => trivial
      | ok req => exact absurd hread (hreq.cut _ _ _ _ hjson htrim hne)

theorem Serving.step (hreq : T.requests.Lawful) (hs : s.Ok T) (hop : op.isOperation = true)
    {a b : ServePhase} (h : T.Serving s i op port a) (hstep : ServeStep T s i a b)
    (hplan : T.plan i = some (op, port)) : T.Serving s i op port b := by
  cases hstep with
  | received part hpart => exact hpart op port hplan
  | handled line => exact serving_handled hreq hop h
  | created hp =>
    obtain ⟨hport, cols, rows, rfl⟩ := h
    have hreg : s.Registered i (s.registrations.creations i).id :=
      ⟨by simp [Creation.inserted, hp], rfl⟩
    obtain ⟨j, hj⟩ := (hs.filed i).mem_minted hreg.started_reader
    refine .inr ⟨hport, rfl, ?_, j, _, hj, rfl⟩
    rw [hreg.session_id (hs.filed i)]
    exact hreg
  | found id c hget =>
    exact ⟨h.1, h.2, ControlPlane.registered_of_get hs.registrations hget⟩
  | attaching id c a a' => exact h
  | listed values hv =>
    obtain ⟨hport, rfl⟩ := h
    exact .inr ⟨hport, ControlPlane.listing_byAge hs.registrations hs.filed hv⟩
  | killing id c hget =>
    exact ⟨h.1, id, h.2, ControlPlane.registered_of_get hs.registrations hget⟩
  | refused phase message => exact .inl ⟨message, rfl⟩
  | written r json hjson => exact ⟨r, json, hjson, rfl, h⟩
  | closed phase => trivial

/-! ### Answers -/

/-- What a client reads of its answer is what the daemon has written, or it reads none. -/
theorem answered_of_delivers (hresp : T.responses.Lawful) (hs : T.Serves s i)
    (hplan : T.plan i = some (op, port)) {x : Exchanged} {r : ControlResponse}
    (hx : (s.requests i).delivers x = true)
    (hr : (Agent.obtain (T.agent i x) op port).result = .ok r) :
    (op = .ls ∧ r = .ls []) ∨ T.Answered s i op port r := by
  refine (Agent.obtain_answer hr).imp_right ?_
  rintro ⟨k, -, str, -, hstr, hne, hread⟩
  obtain rfl : x = .line str := hstr
  change T.responses.fromStr (trimmed str) = .ok r at hread
  cases hphase : s.requests i with
  | written line =>
    have hserve := hs op port hplan
    rw [hphase] at hx hserve
    obtain ⟨r', json, hjson, rfl, hans⟩ := hserve
    have hpart : str.toList <+: json.toList ++ ['\n'] := List.isPrefixOf_iff_prefix.1 hx
    rcases Lines.trim_isPrefix (hresp.line _ _ hjson) hpart with htrim | ⟨htrim, hcut⟩
    · rw [trimmed, htrim, String.ofList_toList, hresp.fromStr _ _ hjson] at hread
      cases hread
      exact hans
    · exact absurd hread (hresp.cut _ _ _ _ hjson htrim hcut)
  | _ =>
    rw [hphase] at hx
    exact absurd (of_decide_eq_true hx) hne

/-- Where `ssh` succeeds, it hands on what the agent has printed. -/
theorem sshEnd_success (hplan : T.plan i = some (op, port)) {x : Exchanged} {ssh : SshResult}
    {status : String} {stdout stderr : List Char}
    (h : T.sshEnd i x ssh = some (.exits true status stdout stderr)) :
    ∃ noise json, Lines.Whole noise ∧
      T.responses.toString (agentAnswer (Agent.obtain (T.agent i x) op port).result) = .ok json ∧
      stdout = noise ++ (json.toList ++ ['\n']) := by
  unfold sshEnd at h
  rw [hplan] at h
  cases ssh with
  | other e =>
    dsimp only at h
    split at h
    · rename_i heq
      cases heq
    · cases h
    · rename_i hne heq
      cases h
      cases heq
      exact absurd rfl (hne _ _ _)
  | agent status' noise stderr' =>
    dsimp only at h
    split at h
    · cases h
    · rename_i out hout
      split_ifs at h with hnoise
      cases h
      obtain ⟨json, hjson, rfl⟩ := agentOutput_eq_ok hout
      exact ⟨noise, json, hnoise, hjson, rfl⟩

/-- The answer of a command that goes on is the agent's. -/
theorem answer_of_runSsh (hresp : T.responses.Lawful)
    (hplain : (T.client i).cli.cmd.plain = true) {cfg : Config} {args : List String}
    {x : Exchanged} {ssh : SshResult} {e : SshEnd} {r : ControlResponse}
    (hcfg : loadClientConfig (T.loaded i) (T.client i).cli = .ok cfg)
    (hop : (T.client i).cli.cmd.request (T.client i).size = some op)
    (he : T.sshEnd i x ssh = some e)
    (h : runSsh T.responses T.debug T.path T.version cfg (fun _ => e) args = .ok r) :
    T.plan i = some (op, cfg.port) ∧
      r = agentAnswer (Agent.obtain (T.agent i x) op cfg.port).result := by
  obtain ⟨target, status, stdout, stderr, htarget, rfl⟩ := runSsh_eq_ok h
  have hplan := plan_of_load hplain hcfg htarget hop
  obtain ⟨noise, json, hnoise, hjson, rfl⟩ := sshEnd_success hplan he
  rw [runSsh_printed hresp htarget rfl hnoise hjson] at h
  cases h
  exact ⟨hplan, rfl⟩

/-- What a command shows is what its request has done. -/
theorem done_of_shows (hs : s.Ok T) (hplan : T.plan i = some (op, port)) {cfg : Config}
    (hcfg : loadClientConfig (T.loaded i) (T.client i).cli = .ok cfg)
    {r : ControlResponse} {action : ClientAction}
    (hr : (op = .ls ∧ r = .ls []) ∨ (∀ q ∈ port, q.1 = T.port) ∧ T.Performed s i op r)
    (h : (T.client i).cli.cmd.Shows T.path cfg r action) : T.Done s i action := by
  obtain ⟨-, -, -, -, -, hop⟩ := plan_eq_some hplan
  unfold Done
  cases hcmd : (T.client i).cli.cmd with
  | create =>
    rw [hcmd] at h hop
    cases hop
    obtain ⟨host, hhost, h⟩ := h
    rcases hr with ⟨hls, -⟩ | ⟨hport, hr⟩
    · cases hls
    · cases r with
      | bootstrap p id pskHex =>
        obtain ⟨hp, hreg, j, psk, hm, rfl⟩ := hr
        rw [openSession, parsePsk_hexEncode] at h
        cases h
        exact ⟨⟨⟨cfg, hcfg, hhost⟩, hp, selects_of_plan hplan hport, hreg,
          hreg.length_id (hs.filed i)⟩, j, hm⟩
      | _ => cases hr
  | attach id' =>
    rw [hcmd] at h hop
    cases hop
    obtain ⟨host, hhost, h⟩ := h
    rcases hr with ⟨hls, -⟩ | ⟨hport, hr⟩
    · cases hls
    · cases r with
      | bootstrap p id pskHex =>
        obtain ⟨hp, hid, c, psk, hreg, hm, rfl⟩ := hr
        rw [openSession, parsePsk_hexEncode] at h
        cases h
        exact ⟨hid, c, ⟨⟨cfg, hcfg, hhost⟩, hp, selects_of_plan hplan hport, hreg,
          hreg.length_id (hs.filed c)⟩, hm⟩
      | _ => cases hr
  | ls =>
    rw [hcmd] at h hop
    cases hop
    cases r with
    | ls l =>
      have hlisting : s.Listing l := by
        rcases hr with ⟨-, hl⟩ | ⟨-, hl⟩
        · cases hl
          exact ⟨.nil, List.nodup_nil, fun a ha => absurd ha List.not_mem_nil⟩
        · exact hl
      have hsel : l ≠ [] → T.Selects i := by
        intro hne
        rcases hr with ⟨-, hl⟩ | ⟨hport, -⟩
        · cases hl
          exact absurd rfl hne
        · exact selects_of_plan hplan hport
      obtain ⟨lines, rfl⟩ : ∃ lines, action = .printed lines := by
        cases l <;> cases h <;> exact ⟨_, rfl⟩
      exact ⟨l, hlisting, hsel, h⟩
    | err message => cases h
    | _ => cases h
  | kill id =>
    rw [hcmd] at h hop
    cases hop
    rcases hr with ⟨hls, -⟩ | ⟨hport, hr⟩
    · cases hls
    · cases r with
      | ok =>
        cases h
        exact ⟨rfl, selects_of_plan hplan hport, hr⟩
      | _ => cases hr
  | connect host id psk =>
    rw [hcmd] at h
    cases h

/-- An error is not shown. -/
theorem not_shows_err {cmd : Cmd} {cfg : Config} {message : String} {action : ClientAction} :
    ¬ cmd.Shows T.path cfg (.err message) action := by
  intro h
  cases cmd with
  | create =>
    obtain ⟨host, -, h⟩ := h
    cases h
  | attach id =>
    obtain ⟨host, -, h⟩ := h
    cases h
  | _ => cases h

theorem done_of_finished (hresp : T.responses.Lawful) (hs : s.Ok T)
    (hplain : (T.client i).cli.cmd.plain = true) {x : Exchanged} {ssh : SshResult}
    {e : SshEnd} {action : ClientAction} (hx : (s.requests i).delivers x = true)
    (he : T.sshEnd i x ssh = some e)
    (h : dispatch T.responses T.debug T.path T.version (T.loaded i) (T.client i).cli
      (T.client i).size (fun _ => e) = .ok action) : T.Done s i action := by
  rcases dispatch_eq_ok h with ⟨host, id, psk', p, psk, hcmd, hport, hpsk, rfl⟩ |
    ⟨cfg, op, r, hcfg, hop, hr, hshows⟩
  · unfold Done
    rw [hcmd, hport]
    exact ⟨rfl, rfl, rfl, hpsk⟩
  · obtain ⟨hplan, rfl⟩ := answer_of_runSsh hresp hplain hcfg hop he hr
    cases hob : (Agent.obtain (T.agent i x) op cfg.port).result with
    | error e =>
      rw [hob] at hshows
      exact absurd hshows not_shows_err
    | ok r =>
      rw [hob] at hshows
      refine done_of_shows hs hplan hcfg ?_ hshows
      rcases answered_of_delivers hresp (hs.requests i) hplan hx hob with hls | ⟨m, rfl⟩ | hr
      · exact .inl hls
      · exact absurd hshows not_shows_err
      · exact .inr hr

end ControlSetup

/-! ### Every run -/

theorem ControlPlane.setRequest_self (s : ControlPlane) (i : ℕ) (phase : ServePhase) :
    (s.setRequest i phase).requests i = phase :=
  Function.update_self _ _ _

/-- The request that goes on. -/
theorem ControlPlane.Ok.serves_setRequest (hreq : T.requests.Lawful) (hs : s.Ok T)
    {phase : ServePhase} (h : ServeStep T s i (s.requests i) phase) :
    T.Serves (s.setRequest i phase) i := by
  intro op port hplan
  have hg : s.Grows (s.setRequest i phase) := .of_eq rfl rfl rfl
  rw [ControlPlane.setRequest_self]
  exact ((hs.requests i op port hplan).step hreq hs (ControlSetup.plan_isOperation hplan) h
    hplan).mono hg

/-- The request that is answered, and the others. -/
theorem ControlPlane.Ok.serves_answered (hs : s.Ok T) (hg : s.Grows s') {r : ControlResponse}
    (hr : s'.requests = Function.update s.requests i (.answered r))
    (h : ∀ op port, T.Serving s i op port (s.requests i) → T.Answered s' i op port r) :
    ∀ k, T.Serves s' k := by
  intro k
  by_cases hk : k = i
  · subst hk
    intro op port hplan
    rw [hr, Function.update_self]
    exact h op port (hs.requests k op port hplan)
  · exact (hs.requests k).mono hg (by rw [hr, Function.update_of_ne hk])

theorem ControlPlane.Ok.step (hreq : T.requests.Lawful) (hresp : T.responses.Lawful)
    (hs : s.Ok T) (h : ControlStep T s s') : s'.Ok T := by
  have hg := h.grows
  have hfiled := h.filed hs.filed
  have hresults : ∀ i action, (T.client i).cli.cmd.plain = true →
      s.results i = some (.ok action) → T.Done s' i action :=
    fun i action hplain hi => (hs.results i action hplain hi).mono hg
  cases h with
  | serve i phase h =>
    refine ⟨hs.registrations, hfiled, fun k => ?_, hresults⟩
    by_cases hk : k = i
    · subst hk
      exact hs.serves_setRequest hreq h
    · exact (hs.requests k).mono hg (Function.update_of_ne hk _ _)
  | registration e r he hdraw hr =>
    exact ⟨hs.registrations.step hr, hfiled, fun k => (hs.requests k).mono hg rfl, hresults⟩
  | spawnFailed i r message hi hr =>
    exact ⟨hs.registrations.step hr, hfiled, hs.serves_answered hg rfl
      fun op port _ => .inl ⟨message, rfl⟩, hresults⟩
  | spawned i now shell psk r hi hr =>
    exact ⟨hs.registrations.step hr, hfiled, fun k => (hs.requests k).mono hg rfl, hresults⟩
  | stored c value =>
    exact ⟨hs.registrations, hfiled, fun k => (hs.requests k).mono hg rfl, hresults⟩
  | rotated i id c a psk hi =>
    refine ⟨hs.registrations, hfiled, hs.serves_answered hg rfl ?_, hresults⟩
    intro op port hserve
    rw [hi] at hserve
    obtain ⟨hport, rfl, hreg⟩ := hserve
    have hid := hreg.session_id (hs.filed c)
    have hreg' := hg.registered hreg
    exact .inr ⟨hport, rfl, hid, c, psk, ⟨hreg'.inserted, hreg'.id.trans hid.symm⟩,
      List.mem_append_right _ (List.mem_singleton_self _), rfl⟩
  | killed i c hi =>
    refine ⟨hs.registrations, hfiled, hs.serves_answered hg rfl ?_, hresults⟩
    intro op port hserve
    rw [hi] at hserve
    obtain ⟨hport, id, rfl, hreg⟩ := hserve
    refine .inr ⟨hport, c, hg.registered hreg, ?_⟩
    dsimp only
    rw [Function.update_self]
    exact Nat.succ_pos _
  | finished i x ssh e hi hx he =>
    refine ⟨hs.registrations, hfiled, fun k => (hs.requests k).mono hg rfl,
      fun k action hplain hk => ?_⟩
    by_cases hki : k = i
    · subst hki
      dsimp only at hk
      rw [Function.update_self, Option.some.injEq] at hk
      exact (ControlSetup.done_of_finished hresp hs hplain hx he hk).mono hg
    · dsimp only at hk
      rw [Function.update_of_ne hki] at hk
      exact hresults k action hplain hk

theorem control_ok (hreq : T.requests.Lawful) (hresp : T.responses.Lawful)
    (hs : (controlSystem T).Reachable s) : s.Ok T := by
  refine System.invariant (fun s hi => ?_)
    (fun s e s' h hst => h.step hreq hresp (controlStep_cases hst)) hs
  obtain ⟨hreg, hwait, -, hnone⟩ := hi
  refine ⟨fun c => ?_, fun c => ⟨?_, ?_, ?_⟩, fun i op port _ => ?_,
    fun i action _ h => ?_⟩
  · rw [hreg]
    exact ⟨MarkEnded.ok_new, fun _ _ => rfl, nofun⟩
  · rw [hreg]
    exact fun hp => absurd rfl hp
  · rw [hreg]
    nofun
  · rw [hreg]
    nofun
  · rw [hwait]
    trivial
  · rw [hnone] at h
    cases h

/-- **A command that succeeds has had its effect.**  Whatever the other clients do in between, and
wherever a connection is cut: `create` has a session of its own and a key of it, `attach` the
session asked for and a key minted for it, `ls` shows sessions of the daemon, by age and each id
once, and `kill` has killed.  The port is the daemon's, and none asked for another one. -/
theorem command_done {T : ControlSetup} (hreq : T.requests.Lawful) (hresp : T.responses.Lawful)
    {s : ControlPlane} (hs : (controlSystem T).Reachable s) {i : ℕ} {action : ClientAction}
    (hplain : (T.client i).cli.cmd.plain = true) (h : s.results i = some (.ok action)) :
    T.Done s i action :=
  (control_ok hreq hresp hs).results i action hplain h

theorem command_done_pairRun : ∃ s : ControlPlane,
    s.results 1 = some (.ok (.interactive "host" 60000 "00000007" (bytePsk 2))) ∧
      pairSetup.Done s 1 (.interactive "host" 60000 "00000007" (bytePsk 2)) := by
  obtain ⟨s, hs, -, hres, -⟩ := exists_pairRun
  exact ⟨s, hres, command_done pairSetup_lawful.1 pairSetup_lawful.2 hs (by decide) hres⟩

end Thther
