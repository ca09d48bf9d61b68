import Thther.Proto.Canonical
import Thther.Proto.Handshake
import Thther.Proto.KeyUse
import Thther.Server.HandleTcp
import Thther.Server.Registry

/-!
# `handle_tcp` up to `become_active`, byte by byte (`server/daemon.rs`)

One connection next to everything else that runs in the daemon.  `wire` is all that the peer will
ever send, up to the byte where the connection is cut; a step that reads is taken when what it
needs has arrived.  `admissionStep` leaves every phase with the step the source takes next;
`.other` is any step of any other party, on any session and on the registry.

* `admissionStep_conn`: these are the first phases of `connStep`, with their bytes;
* `handshake_exact`: the two ends of the handshake understand each other;
* `admission_guarded`: who gets in, and what the others leave alone.
-/

namespace Thther

/-- What `handle_tcp` has in its hands when it answers a hello. -/
structure Offer where
  hello : ClientHello
  session : SessionRef
  psk : Psk
  serverNonce : HandshakeNonce
  total : UInt64
  deriving DecidableEq

/-- The key setup of the connection. -/
def Offer.setup (o : Offer) : KeySetup := ⟨.daemon, o.psk, o.hello.clientNonce, o.serverNonce⟩

/-- Where `handle_tcp` is, with its local variables; the comment names the step that comes next. -/
inductive AdmissionPhase (Key : Type)
  /-- `server_recv` -/
  | accepted
  /-- `registry.get` -/
  | received (hello : ClientHello)
  /-- `is_ended` -/
  | found (hello : ClientHello) (session : SessionRef)
  /-- `current_psk` -/
  | admitted (hello : ClientHello) (session : SessionRef)
  /-- `random_nonce`, `current_total` and the check of the offset -/
  | keyed (hello : ClientHello) (session : SessionRef) (psk : Psk)
  /-- `server_send_ok` -/
  | sized (offer : Offer)
  /-- `read_frame`, which must return `Hello` -/
  | replied (offer : Offer)
  /-- `write_frame` of the `Hello` in return -/
  | authenticated (offer : Offer) (opener : Opener Key)
  /-- `become_active`: `fetch_add` -/
  | greeted (offer : Offer) (opener : Opener Key) (sealer : Sealer Key)
  /-- The connection has become active. -/
  | active (offer : Offer) (epoch : ℕ)
  /-- `server_send_err` -/
  | refusing (status : UInt8)
  | closed

/-- A connection in its daemon. -/
structure Admission (Key : Type) where
  daemon : Daemon
  /-- What the peer sends and has not been read yet. -/
  wire : List UInt8
  /-- What has been written to the peer. -/
  written : List UInt8
  phase : AdmissionPhase Key

inductive AdmissionEvent
  | recvHello
  | lookup
  | checkLive
  | readPsk
  /-- `current_total`, with the nonce drawn before it. -/
  | readTotal (serverNonce : HandshakeNonce)
  | reply (ok : Bool)
  | openHello
  | greet (ok : Bool)
  | fetchAdd
  | sendErr (ok : Bool)
  /-- The rest of the daemon takes a step, to this state; sessions are referred to, and stay. -/
  | other (daemon : Daemon)

variable {Key : Type}

/-- The session an `Arc` points to. -/
def Admission.deref (t : Admission Key) (r : SessionRef) : Option SessionShared :=
  t.daemon.sessions[r]?

section Step

variable (A : Aead Key) (hkdf : List UInt8 → List UInt8 → List UInt8 → Key)

/-- One step. -/
def admissionStep (t : Admission Key) : AdmissionEvent → Option (Admission Key)
  | .recvHello =>
    match t.phase with
    | .accepted =>
      match serverRecv t.wire with
      | .ok (hello, wire) => some { t with wire, phase := .received hello }
      | .error (.inr _) => some { t with phase := .refusing Handshake.statusVersionMismatch }
      | .error (.inl _) => some { t with phase := .closed }
    | _ => none
  | .lookup =>
    match t.phase with
    | .received hello =>
      match t.daemon.registry.get hello.sessionId with
      | some session => some { t with phase := .found hello session }
      | none => some { t with phase := .refusing Handshake.statusNoSession }
    | _ => none
  | .checkLive =>
    match t.phase with
    | .found hello session =>
      (t.deref session).map fun s =>
        if s.ended then { t with phase := .refusing Handshake.statusNoSession }
        else { t with phase := .admitted hello session }
    | _ => none
  | .readPsk =>
    match t.phase with
    | .admitted hello session =>
      (t.deref session).map fun s => { t with phase := .keyed hello session s.psk }
    | _ => none
  | .readTotal serverNonce =>
    match t.phase with
    | .keyed hello session psk =>
      (t.deref session).map fun s =>
        let total := s.currentTotal
        if total < hello.offset then { t with phase := .refusing Handshake.statusBadOffset }
        else { t with phase := .sized ⟨hello, session, psk, serverNonce, total⟩ }
    | _ => none
  | .reply ok =>
    match t.phase with
    | .sized o =>
      if ok then
        some { t with
          written := t.written ++ serverSendOk o.serverNonce o.total
          phase := .replied o }
      else some { t with phase := .closed }
    | _ => none
  | .openHello =>
    match t.phase with
    | .replied o =>
      match readFrame A t.wire (Opener.new (o.setup.key hkdf) dirClientToServer) with
      | (.ok .hello, wire, opener) => some { t with wire, phase := .authenticated o opener }
      | _ => some { t with phase := .closed }
    | _ => none
  | .greet ok =>
    match t.phase with
    | .authenticated o opener =>
      match writeFrame A (Sealer.new (o.setup.key hkdf) dirServerToClient) .hello with
      | (.ok bytes, sealer, _) =>
        if ok then
          some { t with written := t.written ++ bytes, phase := .greeted o opener sealer }
        else some { t with phase := .closed }
      | _ => some { t with phase := .closed }
    | _ => none
  | .fetchAdd =>
    match t.phase with
    | .greeted o _ _ =>
      (t.deref o.session).map fun s => { t with
        daemon := t.daemon.modify o.session (fun s => s.fetchAddEpoch.2) fun _ => rfl
        phase := .active o s.fetchAddEpoch.1 }
    | _ => none
  | .sendErr ok =>
    match t.phase with
    | .refusing status =>
      some { t with
        written := if ok then t.written ++ serverSendErr status else t.written
        phase := .closed }
    | _ => none
  | .other daemon =>
    if t.daemon.sessions.length ≤ daemon.sessions.length then some { t with daemon } else none

end Step

/-- A connection just accepted. -/
def Admission.new (daemon : Daemon) (wire : List UInt8) : Admission Key where
  daemon
  wire
  written := []
  phase := .accepted

/-! ### What one step can do -/

/-- The steps that turn the peer away with a status, and the reason for it. -/
inductive Admission.Refuses (t : Admission Key) : AdmissionEvent → UInt8 → Rejection → Prop
  | version (reason : Rejection) : t.phase = .accepted →
      serverRecv t.wire = .error (.inr reason) →
      t.Refuses .recvHello Handshake.statusVersionMismatch reason
  | unknown (hello : ClientHello) : t.phase = .received hello →
      t.daemon.registry.get hello.sessionId = none →
      t.Refuses .lookup Handshake.statusNoSession .noSession
  | ended (hello : ClientHello) (session : SessionRef) (s : SessionShared) :
      t.phase = .found hello session → t.deref session = some s → s.ended = true →
      t.Refuses .checkLive Handshake.statusNoSession .noSession
  | offset (hello : ClientHello) (session : SessionRef) (psk : Psk) (s : SessionShared)
      (serverNonce : HandshakeNonce) : t.phase = .keyed hello session psk →
      t.deref session = some s → s.currentTotal < hello.offset →
      t.Refuses (.readTotal serverNonce) Handshake.statusBadOffset .badOffset

/-- The steps that drop the connection. -/
inductive Admission.Drops (t : Admission Key) : AdmissionEvent → Prop
  | hello (e : String) : t.phase = .accepted → serverRecv t.wire = .error (.inl e) →
      t.Drops .recvHello
  | reply (o : Offer) : t.phase = .sized o → t.Drops (.reply false)
  | auth (o : Offer) : t.phase = .replied o → t.Drops .openHello
  | greet (o : Offer) (opener : Opener Key) (ok : Bool) : t.phase = .authenticated o opener →
      t.Drops (.greet ok)
  | refused (status : UInt8) (ok : Bool) : t.phase = .refusing status → t.Drops (.sendErr ok)

/-- What one step does. -/
inductive AdmissionStepped (A : Aead Key) (hkdf : List UInt8 → List UInt8 → List UInt8 → Key)
    (t : Admission Key) : AdmissionEvent → Admission Key → Prop
  | refuses (e : AdmissionEvent) (status : UInt8) (reason : Rejection) :
      t.Refuses e status reason →
      AdmissionStepped A hkdf t e { t with phase := .refusing status }
  | drops (e : AdmissionEvent) (written : List UInt8) : t.Drops e →
      AdmissionStepped A hkdf t e { t with written, phase := .closed }
  | hello (hello : ClientHello) (wire : List UInt8) : t.phase = .accepted →
      serverRecv t.wire = .ok (hello, wire) →
      AdmissionStepped A hkdf t .recvHello { t with wire, phase := .received hello }
  | found (hello : ClientHello) (session : SessionRef) : t.phase = .received hello →
      t.daemon.registry.get hello.sessionId = some session →
      AdmissionStepped A hkdf t .lookup { t with phase := .found hello session }
  | live (hello : ClientHello) (session : SessionRef) (s : SessionShared) :
      t.phase = .found hello session → t.deref session = some s → s.ended = false →
      AdmissionStepped A hkdf t .checkLive { t with phase := .admitted hello session }
  | psk (hello : ClientHello) (session : SessionRef) (s : SessionShared) :
      t.phase = .admitted hello session → t.deref session = some s →
      AdmissionStepped A hkdf t .readPsk { t with phase := .keyed hello session s.psk }
  | total (hello : ClientHello) (session : SessionRef) (psk : Psk) (s : SessionShared)
      (serverNonce : HandshakeNonce) : t.phase = .keyed hello session psk →
      t.deref session = some s → hello.offset ≤ s.currentTotal →
      AdmissionStepped A hkdf t (.readTotal serverNonce)
        { t with phase := .sized ⟨hello, session, psk, serverNonce, s.currentTotal⟩ }
  | replied (o : Offer) : t.phase = .sized o →
      AdmissionStepped A hkdf t (.reply true) { t with
        written := t.written ++ serverSendOk o.serverNonce o.total
        phase := .replied o }
  | opened (o : Offer) (wire : List UInt8) (opener : Opener Key) : t.phase = .replied o →
      readFrame A t.wire (Opener.new (o.setup.key hkdf) dirClientToServer) =
        (.ok .hello, wire, opener) →
      AdmissionStepped A hkdf t .openHello { t with wire, phase := .authenticated o opener }
  | greeted (o : Offer) (opener : Opener Key) (bytes : List UInt8) (sealer : Sealer Key) :
      t.phase = .authenticated o opener →
      AdmissionStepped A hkdf t (.greet true)
        { t with written := t.written ++ bytes, phase := .greeted o opener sealer }
  | fetchAdd (o : Offer) (opener : Opener Key) (sealer : Sealer Key) (s : SessionShared) :
      t.phase = .greeted o opener sealer → t.deref o.session = some s →
      AdmissionStepped A hkdf t .fetchAdd { t with
        daemon := t.daemon.modify o.session (fun s => s.fetchAddEpoch.2) fun _ => rfl
        phase := .active o s.fetchAddEpoch.1 }
  | other (daemon : Daemon) : AdmissionStepped A hkdf t (.other daemon) { t with daemon }

theorem admissionStep_cases {A : Aead Key} {hkdf : List UInt8 → List UInt8 → List UInt8 → Key}
    {t t' : Admission Key} {e : AdmissionEvent} (h : admissionStep A hkdf t e = some t') :
    AdmissionStepped A hkdf t e t' := by
  cases e with
  | recvHello =>
    simp only [admissionStep] at h
    split at h
    · rename_i hp
      split at h
      · rename_i hello wire hr
        cases h; exact .hello hello wire hp hr
      · rename_i reason hr
        cases h; exact .refuses _ _ reason (.version reason hp hr)
      · rename_i e hr
        cases h; exact .drops _ t.written (.hello e hp hr)
    · cases h
  | lookup =>
    simp only [admissionStep] at h
    split at h
    · rename_i hello hp
      split at h
      · rename_i session hg
        cases h; exact .found hello session hp hg
      · rename_i hg
        cases h; exact .refuses _ _ _ (.unknown hello hp hg)
    · cases h
  | checkLive =>
    simp only [admissionStep] at h
    split at h
    · rename_i hello session hp
      obtain ⟨s, hs, rfl⟩ := Option.map_eq_some_iff.1 h
      split_ifs with hended
      · exact .refuses _ _ _ (.ended hello session s hp hs hended)
      · exact .live hello session s hp hs (Bool.eq_false_iff.2 hended)
    · cases h
  | readPsk =>
    simp only [admissionStep] at h
    split at h
    · rename_i hello session hp
      obtain ⟨s, hs, rfl⟩ := Option.map_eq_some_iff.1 h
      exact .psk hello session s hp hs
    · cases h
  | readTotal serverNonce =>
    simp only [admissionStep] at h
    split at h
    · rename_i hello session psk hp
      obtain ⟨s, hs, rfl⟩ := Option.map_eq_some_iff.1 h
      split_ifs with hlt
      · exact .refuses _ _ _ (.offset hello session psk s serverNonce hp hs hlt)
      · exact .total hello session psk s serverNonce hp hs (UInt64.not_lt.1 hlt)
    · cases h
  | reply ok =>
    simp only [admissionStep] at h
    split at h
    · rename_i o hp
      cases ok with
      | true => cases h; exact .replied o hp
      | false => cases h; exact .drops _ t.written (.reply o hp)
    · cases h
  | openHello =>
    simp only [admissionStep] at h
    split at h
    · rename_i o hp
      split at h
      · rename_i wire opener hr
        cases h; exact .opened o wire opener hp hr
      · cases h; exact .drops _ t.written (.auth o hp)
    · cases h
  | greet ok =>
    simp only [admissionStep] at h
    split at h
    · rename_i o opener hp
      split at h
      · rename_i bytes sealer call hw
        cases ok with
        | true => cases h; exact .greeted o opener bytes sealer hp
        | false => cases h; exact .drops _ t.written (.greet o opener _ hp)
      · cases h; exact .drops _ t.written (.greet o opener _ hp)
    · cases h
  | fetchAdd =>
    simp only [admissionStep] at h
    split at h
    · rename_i o opener sealer hp
      obtain ⟨s, hs, rfl⟩ := Option.map_eq_some_iff.1 h
      exact .fetchAdd o opener sealer s hp hs
    · cases h
  | sendErr ok =>
    simp only [admissionStep] at h
    split at h
    · rename_i status hp
      cases h; exact .drops _ _ (.refused status ok hp)
    · cases h
  | other daemon =>
    simp only [admissionStep] at h
    split_ifs at h
    cases h; exact .other daemon

/-! ### The handshake between the two ends -/

/-- The peer is told why it is turned away. -/
theorem Admission.Refuses.told {t : Admission Key} {e : AdmissionEvent} {status : UInt8}
    {reason : Rejection} (h : t.Refuses e status reason) (rest : List UInt8) :
    clientRecv (serverSendErr status ++ rest) = .error (.inr reason) := by
  cases h with
  | version reason _ hr =>
    obtain rfl := serverRecv_rejection hr
    rfl
  | unknown => rfl
  | ended => rfl
  | offset => rfl

/-- **The handshake codec is exact.**  `server_recv` reads every hello that `client_send` writes,
and nothing else, byte for byte, and `client_recv` every answer of `server_send_ok`; a message cut
short is an error; and what `handle_tcp` writes to a peer it turns away tells that peer why. -/
theorem handshake_exact :
    (∀ id nonce offset, (asBytes id).length = Handshake.sessionIdLen →
      ∃ bytes, clientSend id nonce offset = .ok bytes ∧
        (∀ rest, serverRecv (bytes ++ rest) = .ok (⟨id, nonce, offset⟩, rest)) ∧
        ∀ cut, cut <+: bytes → cut ≠ bytes → ∃ e, serverRecv cut = .error e) ∧
    (∀ r hello rest, serverRecv r = .ok (hello, rest) →
      ∃ bytes, clientSend hello.sessionId hello.clientNonce hello.offset = .ok bytes ∧
        r = bytes ++ rest) ∧
    (∀ nonce total,
      (∀ rest, clientRecv (serverSendOk nonce total ++ rest) = .ok ((nonce, total), rest)) ∧
        ∀ cut, cut <+: serverSendOk nonce total → cut ≠ serverSendOk nonce total →
          ∃ e, clientRecv cut = .error e) ∧
    (∀ r nonce total rest, clientRecv r = .ok ((nonce, total), rest) →
      r = serverSendOk nonce total ++ rest) ∧
    (∀ status r, status ≠ Handshake.statusOk → ∃ e, clientRecv (status :: r) = .error e) ∧
    ∀ (Key : Type) (A : Aead Key) (hkdf : List UInt8 → List UInt8 → List UInt8 → Key)
      (t t' : Admission Key) (e : AdmissionEvent) (status : UInt8), (∀ d, e ≠ .other d) →
      admissionStep A hkdf t e = some t' → t'.phase = .refusing status →
      ∃ reason, t.Refuses e status reason ∧
        ∀ rest, clientRecv (serverSendErr status ++ rest) = .error (.inr reason) := by
  refine ⟨?_, ?_, ?_, ?_, ?_, ?_⟩
  · intro id nonce offset hlen
    have hsend : clientSend id nonce offset = .ok _ := clientSend_eq_ok.2 ⟨hlen, rfl⟩
    refine ⟨_, hsend, fun rest => ?_, fun cut hcut hne => serverRecv_cut hsend hcut hne⟩
    exact serverRecv_eq_ok.2 ⟨_, hsend, rfl⟩
  · exact fun r hello rest h => serverRecv_eq_ok.1 h
  · exact fun nonce total =>
      ⟨fun rest => clientRecv_eq_ok.2 rfl, fun cut hcut hne => clientRecv_cut hcut hne⟩
  · exact fun r nonce total rest h => clientRecv_eq_ok.1 h
  · intro status r hne
    obtain ⟨e, he, -⟩ := clientRecv_of_ne_ok (r := r) hne
    exact ⟨e, he⟩
  · intro Key A hkdf t t' e status hother h hp
    cases admissionStep_cases h with
    | refuses e status' reason hr =>
      cases hp
      exact ⟨reason, hr, hr.told⟩
    | other d => exact absurd rfl (hother d)
    | _ => cases hp

/-! ### The same steps without their bytes -/

/-- The session the connection refers to. -/
def AdmissionPhase.session : AdmissionPhase Key → Option SessionRef
  | .found _ session | .admitted _ session | .keyed _ session _ => some session
  | .sized o | .replied o | .authenticated o _ | .greeted o _ _ | .active o _ => some o.session
  | .accepted | .received _ | .refusing _ | .closed => none

/-- A connection that has made an offer. -/
def Offer.Matches (o : Offer) (phase : ConnPhase) (k : Conn) : Prop :=
  k.phase = phase ∧ k.offset = o.hello.offset ∧ k.psk = some o.psk ∧ k.total = o.total

/-- A connection of `connStep` is in this phase. -/
def AdmissionPhase.Matches (k : Conn) : AdmissionPhase Key → Prop
  | .accepted => k.phase = .accepted
  | .received hello => k.phase = .received ∧ k.offset = hello.offset
  | .found hello _ => k.phase = .found ∧ k.offset = hello.offset
  | .admitted hello _ => k.phase = .admitted ∧ k.offset = hello.offset
  | .keyed hello _ psk => k.phase = .keyed ∧ k.offset = hello.offset ∧ k.psk = some psk
  | .sized o => o.Matches .sized k
  | .replied o => o.Matches .replied k
  | .authenticated o _ => o.Matches .authenticated k
  | .greeted o _ _ => o.Matches .greeted k
  | .active o epoch => o.Matches .activating k ∧ k.epoch = epoch
  | .refusing status => k.phase = .refused status
  | .closed => k.phase = .closed ∨ ∃ status, k.phase = .refused status

/-- **Every step of the connection is the step `connStep` has for it**, on the session it refers
to, or only writes the status to a peer already turned away. -/
theorem admissionStep_conn {A : Aead Key} {hkdf : List UInt8 → List UInt8 → List UInt8 → Key}
    {t t' : Admission Key} {e : AdmissionEvent} {k : Conn} {shared : SessionShared}
    (h : admissionStep A hkdf t e = some t') (hother : ∀ d, e ≠ .other d)
    (hm : t.phase.Matches k) (hs : ∀ r, t.phase.session = some r → t.deref r = some shared) :
    t'.phase.Matches k ∨ ∃ e' shared' k', connStep shared k e' = some (shared', k') ∧
      t'.phase.Matches k' ∧ ∀ r, t.phase.session = some r → t'.deref r = some shared' := by
  have hread : ∀ {session s}, t.phase.session = some session → t.deref session = some s →
      s = shared := by
    intro session s hsession hat
    rw [hs session hsession] at hat
    exact (Option.some.inj hat).symm
  cases admissionStep_cases h with
  | other d => exact absurd rfl (hother d)
  | refuses e status reason hr =>
    right
    cases hr with
    | version reason hp hr =>
      rw [hp] at hm
      exact ⟨.helloFails true, shared, _, if_pos hm, rfl, by rw [hp]; exact nofun⟩
    | unknown hello hp hg =>
      rw [hp] at hm
      exact ⟨.lookup false, shared, _, if_pos hm.1, rfl, by rw [hp]; exact nofun⟩
    | ended hello session s hp hat hended =>
      obtain rfl := hread (by rw [hp]; rfl) hat
      rw [hp] at hm
      refine ⟨.checkLive, s, _, if_pos hm.1, ?_, hs⟩
      simp [AdmissionPhase.Matches, hended]
    | offset hello session psk s serverNonce hp hat hlt =>
      obtain rfl := hread (by rw [hp]; rfl) hat
      rw [hp] at hm
      refine ⟨.readTotal, s, _, if_pos hm.1, ?_, hs⟩
      simp [AdmissionPhase.Matches, hm.2.1, hlt]
  | drops e written hd =>
    cases hd with
    | refused status ok hp =>
      rw [hp] at hm
      exact Or.inl (Or.inr ⟨status, hm⟩)
    | hello e hp hr =>
      rw [hp] at hm
      exact Or.inr ⟨.helloFails false, shared, _, if_pos hm, Or.inl rfl, hs⟩
    | reply o hp =>
      rw [hp] at hm
      exact Or.inr ⟨.reply false, shared, _, if_pos hm.1, Or.inl rfl, hs⟩
    | auth o hp =>
      rw [hp] at hm
      exact Or.inr ⟨.openHello none, shared, _, if_pos hm.1, Or.inl rfl, hs⟩
    | greet o opener ok hp =>
      rw [hp] at hm
      exact Or.inr ⟨.greet false, shared, _, if_pos hm.1, Or.inl rfl, hs⟩
  | hello hello wire hp hr =>
    rw [hp] at hm
    exact Or.inr ⟨.recvHello hello.offset, shared, _, if_pos hm, ⟨rfl, rfl⟩, hs⟩
  | found hello session hp hg =>
    rw [hp] at hm
    exact Or.inr ⟨.lookup true, shared, _, if_pos hm.1, ⟨rfl, hm.2⟩, hs⟩
  | live hello session s hp hat hended =>
    obtain rfl := hread (by rw [hp]; rfl) hat
    rw [hp] at hm
    refine Or.inr ⟨.checkLive, s, _, if_pos hm.1, ⟨?_, hm.2⟩, hs⟩
    simp [hended]
  | psk hello session s hp hat =>
    obtain rfl := hread (by rw [hp]; rfl) hat
    rw [hp] at hm
    exact Or.inr ⟨.readPsk, s, _, if_pos hm.1, ⟨rfl, hm.2, rfl⟩, hs⟩
  | total hello session psk s serverNonce hp hat hle =>
    obtain rfl := hread (by rw [hp]; rfl) hat
    rw [hp] at hm
    refine Or.inr ⟨.readTotal, s, _, if_pos hm.1, ⟨?_, hm.2.1, hm.2.2, rfl⟩, hs⟩
    have hnot : ¬ s.currentTotal < k.offset := by
      rw [hm.2.1]
      exact UInt64.not_lt.2 hle
    exact if_neg hnot
  | replied o hp =>
    rw [hp] at hm
    exact Or.inr ⟨.reply true, shared, _, if_pos hm.1, ⟨rfl, hm.2⟩, hs⟩
  | opened o wire opener hp hr =>
    rw [hp] at hm
    exact Or.inr ⟨.openHello (some .hello), shared, _, if_pos hm.1, ⟨rfl, hm.2⟩, hs⟩
  | greeted o opener bytes sealer hp =>
    rw [hp] at hm
    exact Or.inr ⟨.greet true, shared, _, if_pos hm.1, ⟨rfl, hm.2⟩, hs⟩
  | fetchAdd o opener sealer s hp hat =>
    obtain rfl := hread (by rw [hp]; rfl) hat
    rw [hp] at hm
    refine Or.inr ⟨.fetchAdd, s.fetchAddEpoch.2, _, if_pos hm.1, ⟨⟨rfl, hm.2⟩, rfl⟩, ?_⟩
    rw [hp]
    rintro r ⟨⟩
    show (t.daemon.sessions.modify o.session _)[o.session]? = _
    rw [List.getElem?_modify, show t.daemon.sessions[o.session]? = some s from hat]
    simp

/-! ### Who gets in -/

/-- What the connection has seen of the daemon, and how the others have left it. -/
structure AdmissionHistory where
  left : Daemon
  looked : Option Daemon
  live : Option Daemon
  keyed : Option Daemon
  total : Option Daemon

def AdmissionHistory.record (t : Admission Key) (h : AdmissionHistory) :
    AdmissionEvent → AdmissionHistory
  | .lookup => { h with looked := some t.daemon }
  | .checkLive => { h with live := some t.daemon }
  | .readPsk => { h with keyed := some t.daemon }
  | .readTotal _ => { h with total := some t.daemon }
  | .other daemon => { h with left := daemon }
  | .recvHello | .reply _ | .openHello | .greet _ | .fetchAdd | .sendErr _ => h

/-- The runs of one connection in a daemon, for what a peer sends. -/
def admissionSystem (A : Aead Key) (hkdf : List UInt8 → List UInt8 → List UInt8 → Key)
    (daemon : Daemon) (bytes : List UInt8) : System (Admission Key) AdmissionEvent where
  init t := t = .new daemon bytes
  step := admissionStep A hkdf

/-- The same with its history. -/
def tracedAdmission (A : Aead Key) (hkdf : List UInt8 → List UInt8 → List UInt8 → Key)
    (daemon : Daemon) (bytes : List UInt8) :
    System (Admission Key × AdmissionHistory) AdmissionEvent :=
  (admissionSystem A hkdf daemon bytes).traced ⟨daemon, none, none, none, none⟩
    AdmissionHistory.record

def AdmissionPhase.isActive : AdmissionPhase Key → Bool
  | .active _ _ => true
  | .accepted | .received _ | .found _ _ | .admitted _ _ | .keyed _ _ _ => false
  | .sized _ | .replied _ | .authenticated _ _ | .greeted _ _ _ | .refusing _ | .closed => false

/-- The offer of a connection whose first record has opened to `Hello`. -/
def AdmissionPhase.authenticatedOffer : AdmissionPhase Key → Option Offer
  | .authenticated o _ | .greeted o _ _ | .active o _ => some o
  | .accepted | .received _ | .found _ _ | .admitted _ _ | .keyed _ _ _ => none
  | .sized _ | .replied _ | .refusing _ | .closed => none

namespace AdmissionHistory

/-- The session was in the registry when it was looked up. -/
def Registered (h : AdmissionHistory) (hello : ClientHello) (session : SessionRef) : Prop :=
  ∃ d, h.looked = some d ∧ d.registry.get hello.sessionId = some session

/-- It had not ended when that was checked. -/
def Live (h : AdmissionHistory) (session : SessionRef) : Prop :=
  ∃ d s, h.live = some d ∧ d.sessions[session]? = some s ∧ s.ended = false

/-- The PSK was the session's. -/
def Keyed (h : AdmissionHistory) (session : SessionRef) (psk : Psk) : Prop :=
  ∃ d s, h.keyed = some d ∧ d.sessions[session]? = some s ∧ s.psk = psk

/-- The offset did not exceed the session's total. -/
def Within (h : AdmissionHistory) (session : SessionRef) (offset : UInt64) : Prop :=
  ∃ d s, h.total = some d ∧ d.sessions[session]? = some s ∧ offset ≤ s.currentTotal

end AdmissionHistory

/-- What an offer rests on. -/
structure Offer.Due (o : Offer) (h : AdmissionHistory) : Prop where
  registered : h.Registered o.hello o.session
  live : h.Live o.session
  keyed : h.Keyed o.session o.psk
  within : h.Within o.session o.hello.offset

/-- The peer has sent the hello, and then a first record that opens to `Hello`. -/
def Offer.Opened (A : Aead Key) (hkdf : List UInt8 → List UInt8 → List UInt8 → Key) (o : Offer)
    (bytes : List UInt8) : Prop :=
  ∃ rest wire opener, serverRecv bytes = .ok (o.hello, rest) ∧
    readFrame A rest (Opener.new (o.setup.key hkdf) dirClientToServer) = (.ok .hello, wire, opener)

/-- What holds of a connection in each phase. -/
def AdmissionPhase.Earned (A : Aead Key) (hkdf : List UInt8 → List UInt8 → List UInt8 → Key)
    (bytes : List UInt8) (h : AdmissionHistory) (wire : List UInt8) : AdmissionPhase Key → Prop
  | .accepted => wire = bytes
  | .received hello => serverRecv bytes = .ok (hello, wire)
  | .found hello session => serverRecv bytes = .ok (hello, wire) ∧ h.Registered hello session
  | .admitted hello session =>
    serverRecv bytes = .ok (hello, wire) ∧ h.Registered hello session ∧ h.Live session
  | .keyed hello session psk =>
    serverRecv bytes = .ok (hello, wire) ∧ h.Registered hello session ∧ h.Live session ∧
      h.Keyed session psk
  | .sized o | .replied o => serverRecv bytes = .ok (o.hello, wire) ∧ o.Due h
  | .authenticated o _ | .greeted o _ _ | .active o _ => o.Opened A hkdf bytes ∧ o.Due h
  | .refusing _ | .closed => True

section Runs

variable {A : Aead Key} {hkdf : List UInt8 → List UInt8 → List UInt8 → Key} {daemon : Daemon}
  {bytes : List UInt8}

/-- The others' steps are no part of what a phase rests on. -/
theorem AdmissionPhase.Earned.left {h : AdmissionHistory} {wire : List UInt8}
    {phase : AdmissionPhase Key} (he : phase.Earned A hkdf bytes h wire) (d : Daemon) :
    phase.Earned A hkdf bytes { h with left := d } wire := by
  cases phase with
  | sized o => exact ⟨he.1, he.2.registered, he.2.live, he.2.keyed, he.2.within⟩
  | replied o => exact ⟨he.1, he.2.registered, he.2.live, he.2.keyed, he.2.within⟩
  | authenticated o _ => exact ⟨he.1, he.2.registered, he.2.live, he.2.keyed, he.2.within⟩
  | greeted o _ _ => exact ⟨he.1, he.2.registered, he.2.live, he.2.keyed, he.2.within⟩
  | active o _ => exact ⟨he.1, he.2.registered, he.2.live, he.2.keyed, he.2.within⟩
  | _ => exact he

theorem earned_step {t t' : Admission Key} {h : AdmissionHistory} {e : AdmissionEvent}
    (he : t.phase.Earned A hkdf bytes h t.wire) (hstep : admissionStep A hkdf t e = some t') :
    t'.phase.Earned A hkdf bytes (h.record t e) t'.wire := by
  cases admissionStep_cases hstep with
  | refuses => trivial
  | drops => trivial
  | hello hello wire hp hr =>
    rw [hp] at he
    obtain rfl : t.wire = bytes := he
    exact hr
  | found hello session hp hg =>
    rw [hp] at he
    exact ⟨he, t.daemon, rfl, hg⟩
  | live hello session s hp hs hended =>
    rw [hp] at he
    exact ⟨he.1, he.2, t.daemon, s, rfl, hs, hended⟩
  | psk hello session s hp hs =>
    rw [hp] at he
    exact ⟨he.1, he.2.1, he.2.2, t.daemon, s, rfl, hs, rfl⟩
  | total hello session psk s serverNonce hp hs hle =>
    rw [hp] at he
    exact ⟨he.1, he.2.1, he.2.2.1, he.2.2.2, t.daemon, s, rfl, hs, hle⟩
  | replied o hp => rw [hp] at he; exact he
  | opened o wire opener hp hr =>
    rw [hp] at he
    exact ⟨⟨t.wire, wire, opener, he.1, hr⟩, he.2⟩
  | greeted o opener bytes sealer hp => rw [hp] at he; exact he
  | fetchAdd o opener sealer s hp hs => rw [hp] at he; exact he
  | other d => exact he.left d

/-- No step of the connection short of its `fetch_add` changes the daemon. -/
theorem admissionStep_left {t t' : Admission Key} {h : AdmissionHistory} {e : AdmissionEvent}
    (hs : admissionStep A hkdf t e = some t') (hactive : t'.phase.isActive = false)
    (hleft : t.daemon = h.left) : t'.daemon = (h.record t e).left := by
  cases admissionStep_cases hs with
  | refuses e status reason hr => cases hr <;> exact hleft
  | drops e written hd => cases hd <;> exact hleft
  | fetchAdd => cases hactive
  | other d => rfl
  | _ => exact hleft

/-- A connection that is active stays so. -/
theorem isActive_step {t t' : Admission Key} {e : AdmissionEvent}
    (h : admissionStep A hkdf t e = some t') (hactive : t.phase.isActive = true) :
    t'.phase.isActive = true := by
  obtain ⟨o, epoch, hp⟩ : ∃ o epoch, t.phase = .active o epoch := by
    cases hp : t.phase with
    | active o epoch => exact ⟨o, epoch, rfl⟩
    | _ => rw [hp] at hactive; cases hactive
  cases e with
  | other d =>
    simp only [admissionStep] at h
    split_ifs at h
    cases h
    exact hactive
  | _ => simp [admissionStep, hp] at h

theorem daemon_eq_left {t : Admission Key × AdmissionHistory}
    (ht : (tracedAdmission A hkdf daemon bytes).Reachable t)
    (hactive : t.1.phase.isActive = false) : t.1.daemon = t.2.left := by
  refine System.invariant (I := fun t : Admission Key × AdmissionHistory =>
    t.1.phase.isActive = false → t.1.daemon = t.2.left) ?_ (fun t e t' ih hst hactive' => ?_) ht
    hactive
  · rintro t ⟨hinit, hh⟩ -
    rw [show t.1 = _ from hinit, hh]
    rfl
  · obtain ⟨hs, hh⟩ := System.traced_step_eq_some.1 hst
    rw [hh]
    refine admissionStep_left hs hactive' (ih ?_)
    cases hpre : t.1.phase.isActive with
    | false => rfl
    | true =>
      rw [isActive_step hs hpre] at hactive'
      cases hactive'

theorem earned_of_reachable {t : Admission Key × AdmissionHistory}
    (ht : (tracedAdmission A hkdf daemon bytes).Reachable t) :
    t.1.phase.Earned A hkdf bytes t.2 t.1.wire := by
  refine System.invariant (I := fun t : Admission Key × AdmissionHistory =>
    t.1.phase.Earned A hkdf bytes t.2 t.1.wire) ?_ (fun t e t' ih hst => ?_) ht
  · rintro t ⟨hinit, hh⟩
    rw [show t.1 = _ from hinit, hh]
    rfl
  · obtain ⟨hs, hh⟩ := System.traced_step_eq_some.1 hst
    rw [hh]
    exact earned_step ih hs

end Runs

/-! ### The first record -/

/-- Only the encoding of `Hello` decodes to it. -/
theorem Frame.encode_of_decode_hello {pt : List UInt8} (h : Frame.decode pt = .ok .hello) :
    pt = Frame.hello.encode := by
  refine Frame.eq_encode_of_decode h fun ht => ?_
  cases pt with
  | nil => exact ht
  | cons t rest => obtain ⟨rfl | rfl | rfl, -⟩ := ht <;> cases h

/-- What is assumed of the cipher and of the randomness, for the connection ends of a run: an
ideal cipher opens under their keys nothing but what one of them has sealed. -/
structure IdealTraffic (A : Aead Key) (hkdf : List UInt8 → List UInt8 → List UInt8 → Key)
    (c : Channels Key) : Prop where
  reachable : (channelSystem A hkdf).Reachable c
  fresh : Fresh hkdf c.setups
  authentic : ∀ s ∈ c.setups, ∀ nonce ct pt, A.decrypt (s.key hkdf) nonce ct = some pt →
    ⟨s.key hkdf, nonce, pt⟩ ∈ c.encryptions

/-- A first record that opens to `Hello` was sealed, as its first record, by the client that holds
the session's PSK and has exchanged these very nonces with this connection. -/
theorem Offer.Opened.sealed {A : Aead Key} {hkdf : List UInt8 → List UInt8 → List UInt8 → Key}
    {o : Offer} {bytes : List UInt8} (h : o.Opened A hkdf bytes) {c : Channels Key}
    (hc : IdealTraffic A hkdf c) (ho : o.setup ∈ c.setups) :
    ⟨.client, o.psk, o.hello.clientNonce, o.serverNonce⟩ ∈ c.setups ∧
      ⟨o.setup.key hkdf, nonceFor dirClientToServer 0, Frame.hello.encode⟩ ∈ c.encryptions := by
  obtain ⟨rest, wire, opener, -, hread⟩ := h
  obtain ⟨ct, pt, hopen, hdec⟩ := readFrame_eq_ok hread
  obtain ⟨hdecrypt, -⟩ := Opener.open_eq_ok hopen
  obtain rfl := Frame.encode_of_decode_hello hdec
  have hmem := hc.authentic o.setup ho _ _ _ hdecrypt
  obtain ⟨i, d, n, hi, -, hkey, hnonce⟩ := (channels_inv hc.reachable).used _ hmem
  have hd : d.setup ∈ c.setups := List.mem_map_of_mem (List.mem_of_getElem? hi)
  -- the direction byte tells the client's records from the daemon's
  obtain ⟨hdir, -⟩ := nonceFor_inj hnonce
  have hparty : d.setup.party = .client := Party.dir_injective hdir.symm
  obtain ⟨hpsk, hsalt⟩ := hc.fresh.derive _ ho _ hd hkey
  obtain ⟨hcn, hsn⟩ := salt_inj hsalt
  refine ⟨?_, hmem⟩
  have heq : d.setup = ⟨.client, o.psk, o.hello.clientNonce, o.serverNonce⟩ := by
    rw [show d.setup = ⟨d.setup.party, d.setup.psk, d.setup.clientNonce, d.setup.serverNonce⟩ from
      rfl, hparty, ← hpsk, ← hcn, ← hsn]
    rfl
  rwa [← heq]

/-- **A peer without the key cannot disturb a session.**  Whatever a peer sends, cut wherever it
is cut, and whatever the rest of the daemon does meanwhile: short of `become_active` the daemon is
as the others have left it; and past the first record the session was registered, had not ended,
had reached the offset, and the record was sealed by a client with the session's PSK for this very
connection. -/
theorem admission_guarded (A : Aead Key)
    (hkdf : List UInt8 → List UInt8 → List UInt8 → Key) (daemon : Daemon) (bytes : List UInt8)
    (t : Admission Key × AdmissionHistory)
    (ht : (tracedAdmission A hkdf daemon bytes).Reachable t) :
    (t.1.phase.isActive = false → t.1.daemon = t.2.left) ∧
      ∀ o, t.1.phase.authenticatedOffer = some o → o.Due t.2 ∧ o.Opened A hkdf bytes ∧
        ∀ c, IdealTraffic A hkdf c → o.setup ∈ c.setups →
          ⟨.client, o.psk, o.hello.clientNonce, o.serverNonce⟩ ∈ c.setups ∧
          ⟨o.setup.key hkdf, nonceFor dirClientToServer 0, Frame.hello.encode⟩ ∈
            c.encryptions := by
  refine ⟨daemon_eq_left ht, fun o ho => ?_⟩
  have hearned := earned_of_reachable ht
  have hboth : o.Opened A hkdf bytes ∧ o.Due t.2 := by
    cases hp : t.1.phase with
    | authenticated o' opener => rw [hp] at ho hearned; cases ho; exact hearned
    | greeted o' opener sealer => rw [hp] at ho hearned; cases ho; exact hearned
    | active o' epoch => rw [hp] at ho hearned; cases ho; exact hearned
    | _ => rw [hp] at ho; cases ho
  exact ⟨hboth.2, hboth.1, fun c hc hsetup => hboth.1.sealed hc hsetup⟩

/-- A cipher that opens one record only. -/
def oneRecordAead (e : Encryption (List UInt8)) : Aead (List UInt8) where
  encrypt _ nonce pt := some (nonce ++ pt)
  decrypt key nonce ct :=
    if key = e.key ∧ nonce = e.nonce ∧ ct = e.nonce ++ e.plaintext then some e.plaintext else none

/-- A daemon with one session, and what it offers a client that knows the session. -/
def oneSession : Daemon :=
  Daemon.register ⟨[], Registry.new, nofun⟩
    (SessionShared.new "00000007" 0 "/bin/sh" 2 (Vector.replicate 32 9))

def knownOffer : Offer where
  hello := ⟨"00000007", Vector.replicate 32 1, 0⟩
  session := 0
  psk := Vector.replicate 32 9
  serverNonce := Vector.replicate 32 2
  total := 0

/-- The client's first encryption. -/
def clientHello : Encryption (List UInt8) :=
  ⟨knownOffer.setup.key concatKdf, nonceFor dirClientToServer 0, Frame.hello.encode⟩

/-- The hello of the client, and its first record. -/
def clientBytes : List UInt8 :=
  (Handshake.magic ++ [Handshake.version] ++ asBytes "00000007" ++
    knownOffer.hello.clientNonce.toList ++ u64ToBe 0) ++
    (u32ToBe 27 ++ (clientHello.nonce ++ clientHello.plaintext))

def admittedRun : List AdmissionEvent :=
  [.recvHello, .lookup, .checkLive, .readPsk, .readTotal knownOffer.serverNonce, .reply true,
    .openHello, .greet true, .fetchAdd]

/-- The key setups of the client and of the daemon, and the client's first record. -/
def clientTraffic : List ChannelEvent :=
  [.connect knownOffer.psk knownOffer.hello.clientNonce knownOffer.serverNonce,
    .accept 0 knownOffer.hello.clientNonce knownOffer.serverNonce,
    .sealRecord 0 Frame.hello.encode]

theorem ideal_clientTraffic : ∃ c,
    (channelSystem (oneRecordAead clientHello) concatKdf).run noChannels clientTraffic = some c ∧
      IdealTraffic (oneRecordAead clientHello) concatKdf c ∧
      knownOffer.setup ∈ c.setups := by
  have hrun : (channelSystem (oneRecordAead clientHello) concatKdf).run noChannels clientTraffic =
    some _ := rfl
  refine ⟨_, hrun, ⟨System.reachable_of_run (s := noChannels) clientTraffic ⟨rfl, rfl⟩ hrun,
    ⟨by decide, fun _ _ _ _ => concatKdf_injective⟩, ?_⟩, ?_⟩
  · intro s _ nonce ct pt h
    simp only [oneRecordAead] at h
    split_ifs at h with hopen
    cases h
    rw [hopen.1, hopen.2.1]
    exact List.mem_singleton_self _
  · exact List.mem_cons_of_mem _ (List.mem_singleton_self _)

def admissionStart : Admission (List UInt8) × AdmissionHistory :=
  (.new oneSession clientBytes, ⟨oneSession, none, none, none, none⟩)

theorem admission_guarded_client :
    ∃ (t : Admission (List UInt8) × AdmissionHistory) (c : Channels (List UInt8)),
      (tracedAdmission (oneRecordAead clientHello) concatKdf oneSession clientBytes).run
        admissionStart admittedRun = some t ∧
      t.1.phase.isActive = true ∧ knownOffer.Due t.2 ∧
      knownOffer.Opened (oneRecordAead clientHello) concatKdf clientBytes ∧
      clientHello ∈ c.encryptions := by
  obtain ⟨c, -, hideal, hsetup⟩ := ideal_clientTraffic
  have hhello : serverRecv clientBytes = .ok (knownOffer.hello,
      u32ToBe 27 ++ (clientHello.nonce ++ clientHello.plaintext)) :=
    serverRecv_eq_ok.2 ⟨_, clientSend_eq_ok.2 ⟨rfl, rfl⟩, rfl⟩
  have hfirst : (tracedAdmission (oneRecordAead clientHello) concatKdf oneSession clientBytes).step
      admissionStart .recvHello = some (⟨oneSession,
        u32ToBe 27 ++ (clientHello.nonce ++ clientHello.plaintext), [],
        .received knownOffer.hello⟩, admissionStart.2) := by
    refine System.traced_step_eq_some.2 ⟨?_, rfl⟩
    simp only [admissionSystem, admissionStep, admissionStart, Admission.new, hhello]
  have hrun : ∃ t,
      (tracedAdmission (oneRecordAead clientHello) concatKdf oneSession clientBytes).run
        admissionStart admittedRun = some t ∧ t.1.phase = .active knownOffer 1 := by
    rw [admittedRun, System.run_cons, hfirst]
    exact ⟨_, rfl, rfl⟩
  obtain ⟨t, hrun, hphase⟩ := hrun
  have hinit : (tracedAdmission (oneRecordAead clientHello) concatKdf oneSession clientBytes).init
      admissionStart := ⟨rfl, rfl⟩
  obtain ⟨-, h⟩ := admission_guarded (oneRecordAead clientHello) concatKdf oneSession clientBytes t
    (System.reachable_of_run admittedRun hinit hrun)
  obtain ⟨hdue, hopened, htraffic⟩ := h knownOffer (by rw [hphase]; rfl)
  exact ⟨t, c, hrun, by rw [hphase]; rfl, hdue, hopened, (htraffic c hideal hsetup).2⟩
end Thther
