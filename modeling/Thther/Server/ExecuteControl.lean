import Thther.Server.Registry

/-!
# Control requests (`server/daemon.rs`)

`executeControl` is `execute_control` run without interruption: the loop that unwraps and checks
the guards (`unwrapGuards`), the check for unguarded requests, and the operation
(`performControl`).  What the operation takes from outside the daemon is a `ControlEnv`.

* `guardControl_eq_ok`: the guards let a request through exactly when it is `Admitted`;
* `executeControl_guarded`: a request is either admitted and performed, or answered with an error
  on an unchanged daemon; every `Bootstrap` carries the daemon's port; and what `obtain` sends is
  admitted.
-/

namespace Thther

/-- What `execute_control` takes from the random generator, the environment, the clock and the
operating system. -/
structure ControlEnv where
  /-- The draws of `new_session_id`. -/
  draws : List UInt32
  /-- `$SHELL`. -/
  shell : Option String
  /-- Opening a PTY of the given size and starting the shell on it. -/
  launch : String → UInt16 → UInt16 → Except String Unit
  now : UInt64
  /-- The draw of `random_psk`. -/
  psk : Psk
  ringBytes : ℕ

/-- `format!("{n:08x}")`. -/
def hex8 (n : UInt32) : String :=
  String.ofList ((List.range 8).reverse.map fun i => Nat.digitChar (n.toNat / 16 ^ i % 16))

/-- `hex::encode`. -/
def hexEncode (bytes : List UInt8) : String :=
  String.ofList
    (bytes.flatMap fun b => [Nat.digitChar (b.toNat / 16), Nat.digitChar (b.toNat % 16)])

/-- `new_session_id`, on the draws of its generator: the first one that is not taken. -/
def newSessionId (registry : Registry) : List UInt32 → Option String
  | [] => none
  | n :: draws => if registry.contains (hex8 n) then newSessionId registry draws else some (hex8 n)

/-- The answer to a request for another port. -/
def portMismatch (port expected : UInt16) : String :=
  s!"daemon is listening on TCP port {port}, but TCP port {expected} was requested; " ++
    s!"use port {port} or manually restart the daemon to change ports " ++
    "(restarting ends its sessions)"

/-- The loop of `execute_control`: every wrapper is checked and taken off. -/
def unwrapGuards (port : UInt16) : ControlRequest → Bool → Except String (ControlRequest × Bool)
  | .onPort expected request, protocolChecked =>
    if expected ≠ port then .error (portMismatch port expected)
    else unwrapGuards port request protocolChecked
  | .onProtocol version request, _ =>
    if version ≠ Handshake.version then .error Rejection.versionMismatch.toString
    else unwrapGuards port request true
  | req, protocolChecked => .ok (req, protocolChecked)

/-- Everything `execute_control` checks before it performs the operation. -/
def guardControl (port : UInt16) (req : ControlRequest) : Except String ControlRequest :=
  match unwrapGuards port req false with
  | .error message => .error message
  | .ok (req, protocolChecked) =>
    if !protocolChecked && req.needsProtocol then .error Rejection.versionMismatch.toString
    else .ok req

/-- The operation; `none` while every draw of `new_session_id` so far is taken. -/
def performControl (env : ControlEnv) (req : ControlRequest) (d : Daemon) (port : UInt16) :
    Option (ControlResponse × Daemon) :=
  match req with
  | .onPort _ _ => none
  | .onProtocol _ _ => none
  | .create cols rows =>
    match newSessionId d.registry env.draws with
    | none => none
    | some id =>
      let shell := env.shell.getD "/bin/sh"
      match env.launch shell (max cols 1) (max rows 1) with
      | .error e => some (.err s!"spawn failed: {e}", d)
      | .ok () =>
        let s := SessionShared.new id env.now shell env.ringBytes env.psk
        some (.bootstrap port s.id (hexEncode s.psk.toList), d.register s)
  | .attach id =>
    match d.find id with
    | none => some (.err "no such session", d)
    | some (r, s) =>
      if s.ended then some (.err "session ended", d)
      else if s.isBusy then some (.err "session busy (already attached)", d)
      else
        some (.bootstrap port s.id (hexEncode env.psk.toList),
          d.modify r (fun s => s.rotatePsk env.psk) fun _ => rfl)
  | .ls => some (.ls d.list, d)
  | .kill id =>
    match d.find id with
    | some (r, _) => some (.ok, d.modify r SessionShared.kill fun _ => rfl)
    | none => some (.err "no such session", d)

/-- `execute_control`. -/
def executeControl (env : ControlEnv) (req : ControlRequest) (d : Daemon) (port : UInt16) :
    Option (ControlResponse × Daemon) :=
  match guardControl port req with
  | .error message => some (.err message, d)
  | .ok req => performControl env req d port

/-! ### The guards -/

/-- A request whose wrappers all name this daemon, with the protocol named where it has to be. -/
structure ControlRequest.Admitted (port : UInt16) (req : ControlRequest) : Prop where
  ports : ∀ p ∈ req.ports, p = port
  versions : ∀ v ∈ req.versions, v = Handshake.version
  named : req.operation.needsProtocol = true → req.versions ≠ []

/-- The loop ends with the operation exactly when every wrapper is right, and its flag tells
whether it has met an `OnProtocol`. -/
theorem unwrapGuards_eq_ok {port : UInt16} {req op : ControlRequest} {checked checked' : Bool} :
    unwrapGuards port req checked = .ok (op, checked') ↔
      (∀ p ∈ req.ports, p = port) ∧ (∀ v ∈ req.versions, v = Handshake.version) ∧
        op = req.operation ∧ checked' = (checked || !req.versions.isEmpty) := by
  induction req generalizing checked with
  | onPort expected request ih =>
    rw [unwrapGuards]
    split_ifs with h
    · constructor
      · exact nofun
      · rintro ⟨hp, -⟩
        exact absurd (hp expected List.mem_cons_self) h
    · rw [not_not] at h
      subst h
      rw [ih]
      simp [ControlRequest.ports, ControlRequest.versions, ControlRequest.operation]
  | onProtocol version request ih =>
    rw [unwrapGuards]
    split_ifs with h
    · constructor
      · exact nofun
      · rintro ⟨-, hv, -⟩
        exact absurd (hv version List.mem_cons_self) h
    · rw [not_not] at h
      subst h
      rw [ih]
      simp [ControlRequest.ports, ControlRequest.versions, ControlRequest.operation]
  | _ =>
    simp [unwrapGuards, ControlRequest.ports, ControlRequest.versions, ControlRequest.operation,
      eq_comm]

/-- The guards let a request through exactly when it is admitted, and hand on its operation. -/
theorem guardControl_eq_ok {port : UInt16} {req op : ControlRequest} :
    guardControl port req = .ok op ↔ req.Admitted port ∧ op = req.operation := by
  rw [guardControl]
  constructor
  · intro h
    split at h
    · cases h
    · rename_i op' checked hu
      obtain ⟨hp, hv, rfl, rfl⟩ := unwrapGuards_eq_ok.1 hu
      split_ifs at h with hn
      cases h
      refine ⟨⟨hp, hv, fun hneed hnil => hn ?_⟩, rfl⟩
      rw [hneed, hnil]
      rfl
  · rintro ⟨⟨hp, hv, hn⟩, rfl⟩
    have hu : unwrapGuards port req false = .ok (req.operation, !req.versions.isEmpty) :=
      unwrapGuards_eq_ok.2 ⟨hp, hv, rfl, rfl⟩
    rw [hu]
    simp only [Bool.not_not]
    rw [if_neg]
    intro hc
    rw [Bool.and_eq_true, List.isEmpty_iff] at hc
    exact hn hc.2 hc.1

/-! ### The answers -/

/-- A `Bootstrap` carries the daemon's port. -/
theorem performControl_bootstrap {env : ControlEnv} {req : ControlRequest} {d d' : Daemon}
    {port p : UInt16} {id pskHex : String}
    (h : performControl env req d port = some (.bootstrap p id pskHex, d')) : p = port := by
  cases req with
  | onPort expected request => cases h
  | onProtocol version request => cases h
  | create cols rows =>
    cases hid : newSessionId d.registry env.draws with
    | none => simp [performControl, hid] at h
    | some id' =>
      cases hl : env.launch (env.shell.getD "/bin/sh") (max cols 1) (max rows 1) with
      | error e => simp [performControl, hid, hl] at h
      | ok u =>
        simp only [performControl, hid, hl, Option.some.injEq, Prod.mk.injEq,
          ControlResponse.bootstrap.injEq] at h
        exact h.1.1.symm
  | attach id' =>
    cases hf : d.find id' with
    | none => simp [performControl, hf] at h
    | some rs =>
      simp only [performControl, hf] at h
      split_ifs at h
      · simp at h
      · simp at h
      · simp only [Option.some.injEq, Prod.mk.injEq, ControlResponse.bootstrap.injEq] at h
        exact h.1.1.symm
  | ls => simp [performControl] at h
  | kill id' =>
    cases hf : d.find id' with
    | none => simp [performControl, hf] at h
    | some rs => simp [performControl, hf] at h

/-! ### What the agent sends -/

/-- The wrappers of `obtain` are the ones the guards ask for. -/
theorem admitted_obtainRequest {op : ControlRequest} (hop : op.isOperation = true)
    {port : UInt16} {selected : Option UInt16} (hs : ∀ p ∈ selected, p = port) :
    (obtainRequest op selected).Admitted port ∧ (obtainRequest op selected).operation = op := by
  obtain ⟨ho, hp, hv⟩ := ControlRequest.operation_of_isOperation hop
  -- the protocol wrapper, under which the port wrapper changes neither versions nor operation
  have hinner : ∀ req : ControlRequest,
      req = (if op.needsProtocol then .onProtocol Handshake.version op else op) →
        req.ports = [] ∧ (∀ v ∈ req.versions, v = Handshake.version) ∧
          (op.needsProtocol = true → req.versions ≠ []) ∧ req.operation = op := by
    rintro req rfl
    by_cases hneed : op.needsProtocol = true
    · simp [hneed, ControlRequest.ports, ControlRequest.versions, ControlRequest.operation, ho, hp,
        hv]
    · simp [hneed, ho, hp, hv]
  obtain ⟨hports, hversions, hnamed, hoper⟩ := hinner _ rfl
  unfold obtainRequest
  cases selected with
  | none =>
    refine ⟨⟨?_, hversions, ?_⟩, hoper⟩
    · intro p hmem
      rw [hports] at hmem
      cases hmem
    · intro hneed
      rw [hoper] at hneed
      exact hnamed hneed
  | some q =>
    refine ⟨⟨?_, hversions, ?_⟩, hoper⟩
    · intro p hmem
      rcases List.mem_cons.1 hmem with rfl | hmem
      · exact hs p rfl
      · rw [hports] at hmem
        cases hmem
    · intro hneed
      have hneed' : op.needsProtocol = true := by
        rw [← hoper]
        exact hneed
      exact hnamed hneed'

/-- **Guarded control requests are all-or-nothing.**  An admitted request is handed on to its
operation and no other request is: it is answered with an error, on the same daemon.  Every
`Bootstrap` carries the daemon's port, which is the one every `OnPort` wrapper asked for.  What
`obtain` sends for an operation, with no port or with the daemon's, is handed on. -/
theorem executeControl_guarded (env : ControlEnv) (req : ControlRequest) (d : Daemon)
    (port : UInt16) :
    (∀ op, guardControl port req = .ok op ↔ req.Admitted port ∧ op = req.operation) ∧
      (req.Admitted port → executeControl env req d port =
        performControl env req.operation d port) ∧
      (¬ req.Admitted port → ∃ message, executeControl env req d port = some (.err message, d)) ∧
      (∀ p id pskHex d', executeControl env req d port = some (.bootstrap p id pskHex, d') →
        p = port ∧ ∀ q ∈ req.ports, q = p) ∧
      (∀ op selected, op.isOperation = true → (∀ p ∈ selected, p = port) →
        guardControl port (obtainRequest op selected) = .ok op) := by
  refine ⟨fun op => guardControl_eq_ok, ?_, ?_, ?_, ?_⟩
  · intro h
    rw [executeControl, guardControl_eq_ok.2 ⟨h, rfl⟩]
  · intro h
    cases hg : guardControl port req with
    | error message => exact ⟨message, by rw [executeControl, hg]⟩
    | ok op => exact absurd (guardControl_eq_ok.1 hg).1 h
  · intro p id pskHex d' h
    cases hg : guardControl port req with
    | error message => simp [executeControl, hg] at h
    | ok op =>
      obtain ⟨hadm, -⟩ := guardControl_eq_ok.1 hg
      simp only [executeControl, hg] at h
      have hp := performControl_bootstrap h
      refine ⟨hp, fun q hq => ?_⟩
      rw [hadm.ports q hq, hp]
  · intro op selected hop hs
    obtain ⟨hadm, ho⟩ := admitted_obtainRequest hop hs
    exact guardControl_eq_ok.2 ⟨hadm, ho.symm⟩

/-- A good outer wrapper does not mask a bad inner one. -/
example : guardControl 62000 (.onProtocol 2 (.onPort 62000 (.onProtocol 3 (.attach "00000000")))) =
    .error Rejection.versionMismatch.toString := by
  decide

end Thther
