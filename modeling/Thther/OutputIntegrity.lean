import Mathlib.Data.List.Infix
import Thther.Replay
import Thther.SecureChannel

/-!
# Output under attack

The daemon's sessions, any number of connections at either end, and a network that is the
attacker's: it sends the daemon any hellos and any records, tells the client any nonces and totals,
and delivers it any bytes.  The cipher is ideal; nothing else is assumed of the network.

* `Attacked.Honest`: every record of the daemon carries what its session has written;
* `output_integrity`: what the client shows is its session's output.
-/

namespace Thther

open Transcript

/-- What the shell of a session has written, and the ring. -/
structure SessionFeed where
  stream : List UInt8
  ring : RingBuf

/-- How far `handle_tcp` is with a connection whose session it has found. -/
inductive ServedPhase
  /-- The PSK is read; `current_total` comes next. -/
  | keyed
  /-- `server_send_ok` has answered the hello; the first record comes next. -/
  | answered
  /-- The first record has opened to `Hello`. -/
  | greeted
  deriving DecidableEq

/-- A connection at the daemon. -/
structure Served where
  /-- The cursor of `server_writer`, the hello's offset at first. -/
  cursor : UInt64
  phase : ServedPhase

/-- The client's connection, after `client_recv`. -/
structure Dialed (Key : Type) where
  index : ℕ
  setup : KeySetup
  opener : Opener Key
  greeted : Bool

/-- How `drive` has returned. -/
inductive Ending
  /-- After `Ended`. -/
  | ended
  /-- With a `Rejection`. -/
  | rejected
  /-- With a `FatalSessionError`, or by a panic. -/
  | fatal
  deriving DecidableEq

/-- The daemon, one client, and every key setup and encryption of both.  After an error of the
network the client may always try again. -/
structure Attacked (Key : Type) where
  channels : Channels Key
  feeds : ℕ → SessionFeed
  /-- The session of a connection at the daemon, by the number of its end. -/
  sessionOf : ℕ → ℕ
  served : ℕ → Option Served
  dialed : Option (Dialed Key)
  client : SessionOutput (List (Segment UInt8))
  returned : Option Ending

inductive AttackedEvent
  /-- The PTY reader of a session appends a chunk. -/
  | append (k : ℕ) (chunk : List UInt8)
  | rotate (k : ℕ) (psk : Psk)
  /-- `handle_tcp` reads the PSK of a session for a hello, and draws its nonce. -/
  | accept (k : ℕ) (clientNonce serverNonce : HandshakeNonce) (offset : UInt64)
  /-- It reads the total, and answers. -/
  | resume (i : ℕ)
  /-- `handle_tcp` reads the first record of a connection. -/
  | authenticate (i : ℕ) (bytes : List UInt8)
  /-- One iteration of `server_writer`. -/
  | iterate (i : ℕ)
  /-- `server_writer` sends a `Ping`, a `Pong` or `Ended`. -/
  | signal (i : ℕ) (f : Frame)
  /-- The daemon drops a connection. -/
  | drop (i : ℕ)
  /-- `connect_once` is answered. -/
  | dial (clientNonce serverNonce : HandshakeNonce) (serverTotal : UInt64)
  /-- The client sends a frame. -/
  | send (f : Frame)
  /-- The client reads a frame. -/
  | deliver (bytes : List UInt8)
  /-- The client's connection is lost. -/
  | cut

section Step

variable {Key : Type} (A : Aead Key) (hkdf : List UInt8 → List UInt8 → List UInt8 → Key)
  (psk : Psk)

/-- `write_frame` on an end: whether it succeeds, and the channels after it. -/
def Channels.write (s : Channels Key) (i : ℕ) (f : Frame) : Option (Bool × Channels Key) :=
  match s.ends[i]? with
  | none => none
  | some c => (channelStep A hkdf s (.sealRecord i f.encode)).map fun s' =>
    ((writeFrame A c.sealer f).1.isOk, s')

/-- A frame from the daemon, at a client past the `Hello` exchange. -/
def Attacked.onFrame (s : Attacked Key) : Frame → Attacked Key
  | .ended => { s with dialed := none, returned := some .ended }
  | f =>
    match clientHandle s.client f with
    | (.ok (), client) => { s with client }
    | (.error _, client) => { s with client, dialed := none, returned := some .fatal }

/-- One event. -/
def attackedStep (s : Attacked Key) : AttackedEvent → Option (Attacked Key)
  | .append k chunk =>
    let feed := s.feeds k
    some { s with
      feeds := Function.update s.feeds k ⟨feed.stream ++ chunk, feed.ring.append chunk⟩ }
  | .rotate k psk =>
    (channelStep A hkdf s.channels (.rotate k psk)).map fun channels => { s with channels }
  | .accept k clientNonce serverNonce offset =>
    let i := s.channels.ends.length
    (channelStep A hkdf s.channels (.accept k clientNonce serverNonce)).map fun channels =>
      { s with
        channels
        sessionOf := Function.update s.sessionOf i k
        served := Function.update s.served i (some ⟨offset, .keyed⟩) }
  | .resume i =>
    match s.served i with
    | some ⟨offset, .keyed⟩ =>
      some { s with
        served := Function.update s.served i
          (if (s.feeds (s.sessionOf i)).ring.total < offset then none
          else some ⟨offset, .answered⟩) }
    | _ => none
  | .authenticate i bytes =>
    match s.served i, s.channels.ends[i]? with
    | some ⟨cursor, .answered⟩, some c =>
      match readFrame A bytes (Opener.new (c.setup.key hkdf) dirClientToServer) with
      | (.ok .hello, _, _) =>
        (s.channels.write A hkdf i .hello).map fun (ok, channels) =>
          { s with
            channels
            served := Function.update s.served i (if ok then some ⟨cursor, .greeted⟩ else none) }
      | _ => some { s with served := Function.update s.served i none }
    | _, _ => none
  | .iterate i =>
    match s.served i with
    | some ⟨cursor, .greeted⟩ =>
      match serverWriterRead (s.feeds (s.sessionOf i)).ring cursor with
      | some (f, cursor) =>
        (s.channels.write A hkdf i f).map fun (ok, channels) =>
          { s with
            channels
            served := Function.update s.served i (if ok then some ⟨cursor, .greeted⟩ else none) }
      | none => some s
    | _ => none
  | .signal i f =>
    match s.served i with
    | some ⟨cursor, .greeted⟩ =>
      if f = .ping ∨ f = .pong ∨ f = .ended then
        (s.channels.write A hkdf i f).map fun (ok, channels) =>
          { s with
            channels
            served := Function.update s.served i
              (if ok ∧ f ≠ .ended then some ⟨cursor, .greeted⟩ else none) }
      else none
    | _ => none
  | .drop i => some { s with served := Function.update s.served i none }
  | .dial clientNonce serverNonce serverTotal =>
    if s.returned.isSome then none
    else if serverTotal < s.client.received then some { s with returned := some .rejected }
    else
      let i := s.channels.ends.length
      let setup : KeySetup := ⟨.client, psk, clientNonce, serverNonce⟩
      match channelStep A hkdf s.channels (.connect psk clientNonce serverNonce) with
      | none => none
      | some channels =>
        (channels.write A hkdf i .hello).map fun (ok, channels) =>
          { s with
            channels
            dialed := if ok then
              some ⟨i, setup, Opener.new (setup.key hkdf) dirServerToClient, false⟩ else none }
  | .send f =>
    match s.dialed with
    | some d =>
      (s.channels.write A hkdf d.index f).map fun (ok, channels) =>
        { s with channels, dialed := if ok then some d else none }
    | none => none
  | .deliver bytes =>
    match s.dialed with
    | some d =>
      match readFrame A bytes d.opener with
      | (.error _, _, _) => some { s with dialed := none }
      | (.ok f, _, opener) =>
        if d.greeted then
          some (Attacked.onFrame { s with dialed := some { d with opener } } f)
        else if f = .hello then
          some { s with dialed := some { d with opener, greeted := true } }
        else some { s with dialed := none, returned := some .fatal }
    | none => none
  | .cut => some { s with dialed := none }

/-- All runs against a client that holds `psk`, for any sessions, ring capacities and keys. -/
def attackedSystem : System (Attacked Key) AttackedEvent where
  init s := s.channels.ends = [] ∧ s.channels.encryptions = [] ∧
    (∀ k, ∃ cap, s.feeds k = ⟨[], RingBuf.new cap⟩) ∧ (∀ i, s.served i = none) ∧
    s.dialed = none ∧ s.client = .new [] ∧ s.returned = none
  step := attackedStep A hkdf psk

end Step

/-! ### Where the records come from -/

/-- A frame `server_writer` may send in a session whose shell has written `S`. -/
def Frame.Carries (S : List UInt8) : Frame → Prop
  | .output offset bytes =>
    offset.toNat + bytes.length ≤ S.length ∧ bytes <+: S.drop offset.toNat
  | .hello | .ping | .pong | .ended => True
  | .data _ | .resize _ _ | .ack _ => False

theorem Frame.Carries.append {S : List UInt8} {f : Frame} (h : f.Carries S) (T : List UInt8) :
    f.Carries (S ++ T) := by
  cases f with
  | output offset bytes =>
    refine ⟨?_, isPrefix_drop_append h.2 T⟩
    have := h.1
    rw [List.length_append]
    omega
  | _ => exact h

section Invariant

variable {Key : Type} {A : Aead Key} {hkdf : List UInt8 → List UInt8 → List UInt8 → Key}
  {psk : Psk}

theorem Channels.reachable_step {s s' : Channels Key} {e : ChannelEvent}
    (hs : (channelSystem A hkdf).Reachable s) (h : channelStep A hkdf s e = some s') :
    (channelSystem A hkdf).Reachable s' := hs.step (e := e) trivial h

/-- One `write_frame`: the end that writes goes on to its next counter if it succeeds, and at most
one encryption is new, at the old counter. -/
theorem Channels.write_eq_some {s s' : Channels Key} {i : ℕ} {f : Frame} {ok : Bool}
    (hs : (channelSystem A hkdf).Reachable s) (h : s.write A hkdf i f = some (ok, s')) :
    (channelSystem A hkdf).Reachable s' ∧ s'.setups = s.setups ∧
      ∃ (c : ChannelEnd Key) (sealer : Sealer Key), s.ends[i]? = some c ∧
        s'.ends = s.ends.set i ⟨c.setup, sealer⟩ ∧
        (ok = true → sealer.counter.toNat = c.sealer.counter.toNat + 1) ∧
        ∀ e ∈ s'.encryptions, e ∈ s.encryptions ∨ e.key = c.setup.key hkdf ∧
          e.nonce = nonceFor c.setup.party.dir c.sealer.counter ∧ e.plaintext = f.encode := by
  unfold Channels.write at h
  cases hi : s.ends[i]? with
  | none => rw [hi] at h; cases h
  | some c =>
    rw [hi] at h
    obtain ⟨s₁, hstep, heq⟩ := Option.map_eq_some_iff.1 h
    cases heq
    refine ⟨Channels.reachable_step hs hstep, ?_⟩
    obtain ⟨hkey, hdir⟩ := (channels_inv hs).keys c (List.mem_of_getElem? hi)
    simp only [channelStep, hi, Option.some.injEq] at hstep
    subst hstep
    refine ⟨setups_set hi _, c, (c.sealer.seal A f.encode).2.1, rfl, rfl, fun hok => ?_,
      fun e he => ?_⟩
    · rcases c.sealer.seal_cases A f.encode with ⟨-, hseal⟩ | ⟨counter, res, hcount, hseal, -⟩
      · rw [writeFrame, hseal] at hok
        cases hok
      · rw [hseal]
        exact hcount
    · rcases List.mem_append.1 he with he | he
      · exact .inl he
      · right
        rcases c.sealer.seal_cases A f.encode with ⟨-, hseal⟩ | ⟨counter, res, -, hseal, -⟩
        · rw [hseal] at he
          cases he
        · rw [hseal] at he
          rw [List.mem_singleton.1 he]
          exact ⟨hkey, by rw [hdir], rfl⟩

variable (hkdf) in
/-- The record was sealed by one of the ends; and a record of the daemon is the `Hello` it begins
with, or carries what the session of its connection has written. -/
def Attacked.Sealed (s : Attacked Key) (e : Encryption Key) : Prop :=
  ∃ (i : ℕ) (c : KeySetup) (n : UInt64), s.channels.setups[i]? = some c ∧ e.key = c.key hkdf ∧
    e.nonce = nonceFor c.party.dir n ∧
    (c.party = .daemon → ∃ f : Frame, e.plaintext = f.encode ∧
      f.Carries (s.feeds (s.sessionOf i)).stream ∧ (f = .hello ↔ n.toNat = 0))

/-- A connection of the daemon has sealed its `Hello` exactly when the client's has opened, and is
within the output from its answer on. -/
def Served.Ok (S : List UInt8) (c : ChannelEnd Key) (v : Served) : Prop :=
  (v.phase ≠ .keyed → v.cursor.toNat ≤ S.length) ∧ c.setup.party = .daemon ∧
    (v.phase ≠ .greeted ↔ c.sealer.counter.toNat = 0)

variable (hkdf psk) in
/-- The client's connection has opened the `Hello` before anything else. -/
def Dialed.Ok (setups : List KeySetup) (d : Dialed Key) : Prop :=
  setups[d.index]? = some d.setup ∧ d.setup.party = .client ∧ d.setup.psk = psk ∧
    d.opener.key = d.setup.key hkdf ∧ d.opener.dir = dirServerToClient ∧
    (d.greeted = false ↔ d.opener.counter.toNat = 0)

variable (A hkdf psk) in
/-- What holds whatever the network does. -/
structure Attacked.Honest (s : Attacked Key) : Prop where
  reachable : (channelSystem A hkdf).Reachable s.channels
  feeds : ∀ k, (s.feeds k).ring.Holds (s.feeds k).stream
  served : ∀ i v, s.served i = some v → ∃ c, s.channels.ends[i]? = some c ∧
    v.Ok (s.feeds (s.sessionOf i)).stream c
  dialed : ∀ d, s.dialed = some d → d.Ok hkdf psk s.channels.setups
  sealed_ : ∀ e ∈ s.channels.encryptions, s.Sealed hkdf e

variable {s s' : Attacked Key}

/-- An end writes a frame that it may seal at its counter. -/
theorem Attacked.Honest.write (h : s.Honest A hkdf psk) {i : ℕ} {f : Frame} {ok : Bool}
    {ch : Channels Key} (hw : s.channels.write A hkdf i f = some (ok, ch))
    (hf : ∀ c : ChannelEnd Key, s.channels.ends[i]? = some c → c.setup.party = .daemon →
      f.Carries (s.feeds (s.sessionOf i)).stream ∧ (f = .hello ↔ c.sealer.counter.toNat = 0))
    {v : Option Served} (hv : ∀ (c : ChannelEnd Key) (sealer : Sealer Key) w,
      s.channels.ends[i]? = some c →
      (ok = true → sealer.counter.toNat = c.sealer.counter.toNat + 1) → v = some w →
      w.Ok (s.feeds (s.sessionOf i)).stream (⟨c.setup, sealer⟩ : ChannelEnd Key)) :
    Attacked.Honest A hkdf psk
        { s with channels := ch, served := Function.update s.served i v } ∧
      ch.setups = s.channels.setups := by
  obtain ⟨hreach, hsetups, c, sealer, hc, hends, hcount, hnew⟩ :=
    Channels.write_eq_some h.reachable hw
  have hlt := (List.getElem?_eq_some_iff.1 hc).1
  refine ⟨⟨hreach, h.feeds, fun j w hj => ?_, fun d hd => ?_, fun e he => ?_⟩, hsetups⟩
  · dsimp only at hj ⊢
    rw [hends]
    by_cases hji : j = i
    · subst hji
      rw [Function.update_self] at hj
      exact ⟨_, List.getElem?_set_self hlt, hv c sealer w hc hcount hj⟩
    · rw [Function.update_of_ne hji] at hj
      rw [List.getElem?_set_ne (Ne.symm hji)]
      exact h.served j w hj
  · dsimp only
    rw [hsetups]
    exact h.dialed d hd
  · have hsealed : s.Sealed hkdf e := by
      rcases hnew e he with he | ⟨hkey, hnonce, hpt⟩
      · exact h.sealed_ e he
      · refine ⟨i, c.setup, c.sealer.counter, Channels.setups_getElem? hc, hkey, hnonce,
          fun hparty => ?_⟩
        obtain ⟨hcarries, hhello⟩ := hf c hc hparty
        exact ⟨f, hpt, hcarries, hhello⟩
    obtain ⟨j, d, n, hd, hrest⟩ := hsealed
    exact ⟨j, d, n, hsetups ▸ hd, hrest⟩

/-- A connection of the daemon goes on, or is dropped. -/
theorem Attacked.Honest.serve (h : s.Honest A hkdf psk) {i : ℕ} {v : Served} {o : Option Served}
    (hv : s.served i = some v) (ho : ∀ w, o = some w → ∀ c : ChannelEnd Key,
      v.Ok (s.feeds (s.sessionOf i)).stream c → w.Ok (s.feeds (s.sessionOf i)).stream c) :
    Attacked.Honest A hkdf psk { s with served := Function.update s.served i o } := by
  refine ⟨h.reachable, h.feeds, fun j w hj => ?_, h.dialed, h.sealed_⟩
  dsimp only at hj
  by_cases hji : j = i
  · subst hji
    rw [Function.update_self] at hj
    obtain ⟨c, hc, hok⟩ := h.served j v hv
    exact ⟨c, hc, ho w hj c hok⟩
  · rw [Function.update_of_ne hji] at hj
    exact h.served j w hj

/-- A connection of the daemon is dropped. -/
theorem Attacked.Honest.drop (h : s.Honest A hkdf psk) (i : ℕ) :
    Attacked.Honest A hkdf psk { s with served := Function.update s.served i none } := by
  refine ⟨h.reachable, h.feeds, fun j w hj => ?_, h.dialed, h.sealed_⟩
  by_cases hji : j = i
  · subst hji
    dsimp only at hj
    rw [Function.update_self] at hj
    cases hj
  · dsimp only at hj
    rw [Function.update_of_ne hji] at hj
    exact h.served j w hj

/-- The client's connection goes on. -/
theorem Attacked.Honest.redial (h : s.Honest A hkdf psk) {d : Dialed Key}
    (hd : d.Ok hkdf psk s.channels.setups) (client : SessionOutput (List (Segment UInt8)))
    (returned : Option Ending) :
    Attacked.Honest A hkdf psk { s with dialed := some d, client, returned } := by
  refine ⟨h.reachable, h.feeds, h.served, fun d' hd' => ?_, h.sealed_⟩
  cases hd'
  exact hd

/-- The client has no connection any more. -/
theorem Attacked.Honest.hangUp (h : s.Honest A hkdf psk)
    (client : SessionOutput (List (Segment UInt8))) (returned : Option Ending) :
    Attacked.Honest A hkdf psk { s with dialed := none, client, returned } := by
  refine ⟨h.reachable, h.feeds, h.served, fun d' hd' => ?_, h.sealed_⟩
  cases hd'

/-- The daemon writes the frame that is due on a connection. -/
theorem Attacked.Honest.write_daemon (h : s.Honest A hkdf psk) {i : ℕ} {v : Served} {f : Frame}
    {ok : Bool} {ch : Channels Key} (hv : s.served i = some v)
    (hf : f.Carries (s.feeds (s.sessionOf i)).stream) (hhello : f = .hello ↔ v.phase ≠ .greeted)
    (hw : s.channels.write A hkdf i f = some (ok, ch)) {w : Option Served}
    (hnext : ∀ w', w = some w' → ok = true ∧ w'.phase = .greeted ∧
      w'.cursor.toNat ≤ (s.feeds (s.sessionOf i)).stream.length) :
    Attacked.Honest A hkdf psk
      { s with channels := ch, served := Function.update s.served i w } := by
  obtain ⟨c, hc, -, hparty, hgreeted⟩ := h.served i v hv
  refine (h.write hw (fun c' hc' _ => ?_) fun c' sealer w' hc' hcount hw' => ?_).1
  · rw [hc, Option.some.injEq] at hc'
    rw [← hc']
    exact ⟨hf, hhello.trans hgreeted⟩
  · rw [hc, Option.some.injEq] at hc'
    subst hc'
    obtain ⟨hok, hg, hcur⟩ := hnext w' hw'
    refine ⟨fun _ => hcur, hparty, ?_⟩
    rw [hg, hcount hok]
    simp

/-- The client writes any frame. -/
theorem Attacked.Honest.write_client (h : s.Honest A hkdf psk) {i : ℕ} {c : KeySetup} {f : Frame}
    {ok : Bool} {ch : Channels Key} (hc : s.channels.setups[i]? = some c)
    (hparty : c.party = .client) (hw : s.channels.write A hkdf i f = some (ok, ch)) :
    Attacked.Honest A hkdf psk { s with channels := ch } ∧
      ch.setups = s.channels.setups := by
  have hnot : ∀ d : ChannelEnd Key, s.channels.ends[i]? = some d → d.setup.party = .daemon →
      False := by
    intro d hd hdaemon
    rw [Channels.setups_getElem? hd, Option.some.injEq] at hc
    rw [hc, hparty] at hdaemon
    cases hdaemon
  have hnone : s.served i = none := by
    cases hv : s.served i with
    | none => rfl
    | some v =>
      obtain ⟨d, hd, -, hdaemon, -⟩ := h.served i v hv
      exact (hnot d hd hdaemon).elim
  obtain ⟨hwrote, hsetups⟩ := h.write hw (fun d hd hdaemon => (hnot d hd hdaemon).elim)
    (v := none) (fun _ _ _ _ _ hw' => by cases hw')
  rw [← hnone, Function.update_eq_self] at hwrote
  exact ⟨hwrote, hsetups⟩

/-- A new end has sealed nothing yet. -/
theorem Attacked.Honest.add (h : s.Honest A hkdf psk) {c : KeySetup} {e : ChannelEvent}
    (he : channelStep A hkdf s.channels e = some (s.channels.add hkdf c)) (k : ℕ) :
    Attacked.Honest A hkdf psk { s with
      channels := s.channels.add hkdf c
      sessionOf := Function.update s.sessionOf s.channels.ends.length k } := by
  have hold : ∀ {i d}, s.channels.setups[i]? = some d →
      (s.channels.add hkdf c).setups[i]? = some d ∧ i ≠ s.channels.ends.length := by
    intro i d hi
    have hlt := (List.getElem?_eq_some_iff.1 hi).1
    rw [Channels.setups, List.length_map] at hlt
    refine ⟨?_, Nat.ne_of_lt hlt⟩
    rw [Channels.setups, Channels.add, List.map_append, List.getElem?_append_left (by simpa)]
    exact hi
  refine ⟨Channels.reachable_step h.reachable he, h.feeds, ?_, ?_, ?_⟩
  · intro i v hv
    obtain ⟨d, hd, hok⟩ := h.served i v hv
    have hlt := (List.getElem?_eq_some_iff.1 hd).1
    dsimp only
    rw [Function.update_of_ne (Nat.ne_of_lt hlt)]
    exact ⟨d, by rw [Channels.add, List.getElem?_append_left hlt]; exact hd, hok⟩
  · intro d hd
    obtain ⟨hc, hrest⟩ := h.dialed d hd
    exact ⟨(hold hc).1, hrest⟩
  · intro e he
    obtain ⟨i, d, n, hd, hkey, hnonce, hf⟩ := h.sealed_ e he
    obtain ⟨hd', hne⟩ := hold hd
    refine ⟨i, d, n, hd', hkey, hnonce, ?_⟩
    dsimp only
    rw [Function.update_of_ne hne]
    exact hf

theorem Channels.add_getElem? (s : Channels Key) (c : KeySetup) :
    (s.add hkdf c).ends[s.ends.length]? = some ⟨c, c.sealer hkdf⟩ := by
  rw [Channels.add, List.getElem?_concat_length]

/-- The PTY reader of a session appends. -/
theorem Attacked.Honest.append (h : s.Honest A hkdf psk) {k : ℕ} {chunk : List UInt8}
    (hlen : ((s.feeds k).stream ++ chunk).length < 2 ^ 64) :
    Attacked.Honest A hkdf psk { s with
      feeds := Function.update s.feeds k
        ⟨(s.feeds k).stream ++ chunk, (s.feeds k).ring.append chunk⟩ } := by
  have hmore : ∀ j, ∃ T, (Function.update s.feeds k
      ⟨(s.feeds k).stream ++ chunk, (s.feeds k).ring.append chunk⟩ j).stream =
        (s.feeds j).stream ++ T := by
    intro j
    by_cases hj : j = k
    · subst hj
      exact ⟨chunk, by rw [Function.update_self]⟩
    · exact ⟨[], by rw [Function.update_of_ne hj, List.append_nil]⟩
  refine ⟨h.reachable, ?_, ?_, h.dialed, ?_⟩
  · intro j
    by_cases hj : j = k
    · subst hj
      dsimp only
      rw [Function.update_self]
      exact (h.feeds j).append chunk hlen
    · dsimp only
      rw [Function.update_of_ne hj]
      exact h.feeds j
  · intro i v hv
    obtain ⟨c, hc, hcur, hrest⟩ := h.served i v hv
    obtain ⟨T, hT⟩ := hmore (s.sessionOf i)
    refine ⟨c, hc, fun hp => ?_, hrest⟩
    dsimp only
    rw [hT, List.length_append]
    exact (hcur hp).trans (Nat.le_add_right _ _)
  · intro e he
    obtain ⟨i, c, n, hc, hkey, hnonce, hf⟩ := h.sealed_ e he
    refine ⟨i, c, n, hc, hkey, hnonce, fun hparty => ?_⟩
    obtain ⟨f, hpt, hcarries, hhello⟩ := hf hparty
    obtain ⟨T, hT⟩ := hmore (s.sessionOf i)
    refine ⟨f, hpt, ?_, hhello⟩
    dsimp only
    rw [hT]
    exact hcarries.append T

theorem attackedStep_feeds {e : AttackedEvent} (h : attackedStep A hkdf psk s e = some s')
    (k : ℕ) : (s.feeds k).stream <+: (s'.feeds k).stream := by
  cases e with
  | append j chunk =>
    cases h
    by_cases hk : k = j
    · subst hk
      dsimp only
      rw [Function.update_self]
      exact List.prefix_append _ _
    · dsimp only
      rw [Function.update_of_ne hk]
  | deliver bytes =>
    simp only [attackedStep] at h
    split at h
    · split at h
      · cases h; exact List.prefix_rfl
      · split_ifs at h
        · cases h
          unfold Attacked.onFrame
          split
          · exact List.prefix_rfl
          · split <;> exact List.prefix_rfl
        · cases h; exact List.prefix_rfl
        · cases h; exact List.prefix_rfl
    · cases h
  | _ =>
    simp only [attackedStep] at h
    all_goals
      repeat' split at h
    all_goals
      first
      | cases h; done
      | cases h; exact List.prefix_rfl
      | obtain ⟨x, -, hx⟩ := Option.map_eq_some_iff.1 h
        cases hx
        exact List.prefix_rfl

theorem Attacked.Honest.step (h : s.Honest A hkdf psk) {e : AttackedEvent}
    (hlen : ∀ k, (s'.feeds k).stream.length < 2 ^ 64)
    (hs : attackedStep A hkdf psk s e = some s') : s'.Honest A hkdf psk := by
  have hlen' : ∀ k, (s.feeds k).stream.length < 2 ^ 64 := fun k =>
    Nat.lt_of_le_of_lt (attackedStep_feeds hs k).length_le (hlen k)
  cases e with
  | append k chunk =>
    cases hs
    refine h.append ?_
    have := hlen k
    dsimp only at this
    rwa [Function.update_self] at this
  | rotate k key =>
    simp only [attackedStep] at hs
    obtain ⟨ch, hch, rfl⟩ := Option.map_eq_some_iff.1 hs
    have hreach := Channels.reachable_step h.reachable hch
    cases hch
    exact ⟨hreach, h.feeds, h.served, h.dialed, h.sealed_⟩
  | accept k cn sn offset =>
    obtain ⟨ch, hch, rfl⟩ := Option.map_eq_some_iff.1 (by simpa only [attackedStep] using hs)
    have hadd : ch = s.channels.add hkdf ⟨.daemon, s.channels.psks k, cn, sn⟩ :=
      (Option.some.inj hch).symm
    subst hadd
    have hnew := h.add hch k
    refine ⟨hnew.reachable, hnew.feeds, fun i v hv => ?_, hnew.dialed, hnew.sealed_⟩
    by_cases hi : i = s.channels.ends.length
    · subst hi
      dsimp only at hv ⊢
      rw [Function.update_self] at hv
      cases hv
      exact ⟨_, Channels.add_getElem? _ _, fun hp => absurd rfl hp, rfl,
        iff_of_true (fun hp => by cases hp) rfl⟩
    · dsimp only at hv
      rw [Function.update_of_ne hi] at hv
      exact hnew.served i v hv
  | resume i =>
    simp only [attackedStep] at hs
    split at hs
    · rename_i offset hv
      cases hs
      refine h.serve hv fun w hw c hok => ?_
      split_ifs at hw with hoff
      cases hw
      rw [UInt64.not_lt, UInt64.le_iff_toNat_le, (h.feeds _).toNat_total (hlen' _)] at hoff
      obtain ⟨-, hparty, hcount⟩ := hok
      exact ⟨fun _ => hoff, hparty, (iff_of_true (by simp) (by simp)).trans hcount⟩
    · cases hs
  | authenticate i bytes =>
    simp only [attackedStep] at hs
    split at hs
    · rename_i cursor c hv hi
      split at hs
      · obtain ⟨⟨ok, ch⟩, hw, rfl⟩ := Option.map_eq_some_iff.1 hs
        refine h.write_daemon hv (f := .hello) trivial (by simp) hw fun w' hw' => ?_
        split_ifs at hw' with hok
        cases hw'
        obtain ⟨-, -, hcur, -⟩ := h.served i _ hv
        exact ⟨hok, rfl, hcur (by simp)⟩
      · cases hs
        exact h.drop i
    · cases hs
  | iterate i =>
    simp only [attackedStep] at hs
    split at hs
    · rename_i cursor hv
      obtain ⟨-, -, hcur, -⟩ := h.served i _ hv
      have hcur := hcur (by simp)
      split at hs
      · rename_i f cursor' hr
        obtain ⟨⟨ok, ch⟩, hw, rfl⟩ := Option.map_eq_some_iff.1 hs
        obtain ⟨offset, bytes, rfl, -, hnext, hend, -, -, hdata, -⟩ :=
          (h.feeds (s.sessionOf i)).serverWriterRead_eq_some (hlen' _) hr hcur
        refine h.write_daemon hv (f := .output offset bytes) ⟨by omega, hdata⟩ (by simp) hw
          fun w' hw' => ?_
        split_ifs at hw' with hok
        cases hw'
        exact ⟨hok, rfl, hend⟩
      · cases hs; exact h
    · cases hs
  | signal i f =>
    simp only [attackedStep] at hs
    split at hs
    · rename_i cursor hv
      obtain ⟨-, -, hcur, -⟩ := h.served i _ hv
      split_ifs at hs with hf
      obtain ⟨⟨ok, ch⟩, hw, rfl⟩ := Option.map_eq_some_iff.1 hs
      have hcarries : f.Carries (s.feeds (s.sessionOf i)).stream ∧ f ≠ .hello := by
        rcases hf with rfl | rfl | rfl <;> exact ⟨trivial, by simp⟩
      refine h.write_daemon hv hcarries.1 (by simpa using hcarries.2) hw fun w' hw' => ?_
      split_ifs at hw' with hok
      cases hw'
      exact ⟨hok.1, rfl, hcur (by simp)⟩
    · cases hs
  | drop i => cases hs; exact h.drop i
  | dial cn sn total =>
    simp only [attackedStep] at hs
    split_ifs at hs with hret htotal
    · cases hs
      exact ⟨h.reachable, h.feeds, h.served, h.dialed, h.sealed_⟩
    · split at hs
      · cases hs
      · rename_i ch hch
        obtain ⟨⟨ok, ch'⟩, hw, rfl⟩ := Option.map_eq_some_iff.1 hs
        have hadd : ch = s.channels.add hkdf ⟨.client, psk, cn, sn⟩ := (Option.some.inj hch).symm
        subst hadd
        have hnew := h.add hch (s.sessionOf s.channels.ends.length)
        rw [Function.update_eq_self] at hnew
        have hget : (s.channels.add hkdf ⟨.client, psk, cn, sn⟩).setups[s.channels.ends.length]? =
            some ⟨.client, psk, cn, sn⟩ := Channels.setups_getElem? (Channels.add_getElem? _ _)
        obtain ⟨hwrote, hsetups⟩ := hnew.write_client hget rfl hw
        cases ok with
        | true => exact hwrote.redial ⟨hsetups ▸ hget, rfl, rfl, rfl, rfl, iff_of_true rfl rfl⟩ _ _
        | false => exact hwrote.hangUp _ _
  | send f =>
    simp only [attackedStep] at hs
    split at hs
    · rename_i d hd
      obtain ⟨⟨ok, ch⟩, hw, rfl⟩ := Option.map_eq_some_iff.1 hs
      obtain ⟨hget, hparty, hrest⟩ := h.dialed d hd
      obtain ⟨hwrote, hsetups⟩ := h.write_client hget hparty hw
      cases ok with
      | true => exact hwrote.redial ⟨hsetups ▸ hget, hparty, hrest⟩ _ _
      | false => exact hwrote.hangUp _ _
    · cases hs
  | deliver bytes =>
    simp only [attackedStep] at hs
    split at hs
    · rename_i d hd
      obtain ⟨hget, hparty, hpsk, hkey, hdir, hgreeted⟩ := h.dialed d hd
      split at hs
      · cases hs; exact h.hangUp _ _
      · rename_i f r opener hread
        obtain ⟨ct, pt, hopen, -⟩ := readFrame_eq_ok hread
        obtain ⟨-, hkey', hdir', hcount⟩ := Opener.open_eq_ok hopen
        have hnext : Dialed.Ok hkdf psk s.channels.setups { d with opener, greeted := true } := by
          refine ⟨hget, hparty, hpsk, hkey'.trans hkey, hdir'.trans hdir, ?_⟩
          dsimp only
          rw [hcount]
          simp
        split_ifs at hs with hg
        · cases hs
          have hopened := h.redial hnext s.client s.returned
          have hsame : ({ d with opener } : Dialed Key) = { d with opener, greeted := true } := by
            rw [← hg]
          rw [hsame]
          unfold Attacked.onFrame
          split
          · exact hopened.hangUp _ _
          · split
            · exact hopened.redial hnext _ _
            · exact hopened.hangUp _ _
        · cases hs; exact h.redial hnext _ _
        · cases hs; exact h.hangUp _ _
    · cases hs
  | cut => cases hs; exact h.hangUp _ _

theorem attacked_honest (hs : (attackedSystem A hkdf psk).Reachable s)
    (hlen : ∀ k, (s.feeds k).stream.length < 2 ^ 64) : s.Honest A hkdf psk := by
  refine @System.invariant _ _ (attackedSystem A hkdf psk)
    (fun s => (∀ k, (s.feeds k).stream.length < 2 ^ 64) → s.Honest A hkdf psk)
    (fun s hi _ => ?_) (fun s e s' ih hst hl => ?_) _ hs hlen
  · obtain ⟨hends, henc, hfeeds, hserved, hdialed, -, -⟩ := hi
    refine ⟨.init ⟨hends, henc⟩, fun k => ?_, fun i v hv => ?_, fun d hd => ?_, fun e he => ?_⟩
    · obtain ⟨cap, hcap⟩ := hfeeds k
      rw [hcap]
      exact RingBuf.holds_new cap
    · rw [hserved] at hv
      cases hv
    · rw [hdialed] at hd
      cases hd
    · rw [henc] at he
      cases he
  · have hstep : attackedStep A hkdf psk s e = some s' := hst
    exact (ih fun k => Nat.lt_of_le_of_lt (attackedStep_feeds hstep k).length_le (hl k)).step hl
      hstep

theorem channelStep_setups {c c' : Channels Key} {e : ChannelEvent}
    (h : channelStep A hkdf c e = some c') : c.setups <+: c'.setups := by
  have hadd : ∀ x, c.setups <+: (c.add hkdf x).setups := by
    intro x
    rw [Channels.setups, Channels.setups, Channels.add, List.map_append]
    exact List.prefix_append _ _
  cases e with
  | rotate i key => cases h; exact List.prefix_rfl
  | connect key cn sn => cases h; exact hadd _
  | accept i cn sn => cases h; exact hadd _
  | sealRecord i pt =>
    cases hi : c.ends[i]? with
    | none => simp [channelStep, hi] at h
    | some x =>
      simp only [channelStep, hi, Option.some.injEq] at h
      subst h
      rw [← setups_set hi]
      exact List.prefix_rfl

theorem Channels.write_setups {c c' : Channels Key} {i : ℕ} {f : Frame} {ok : Bool}
    (h : c.write A hkdf i f = some (ok, c')) : c.setups <+: c'.setups := by
  unfold Channels.write at h
  split at h
  · cases h
  · obtain ⟨c₁, hstep, heq⟩ := Option.map_eq_some_iff.1 h
    cases heq
    exact channelStep_setups hstep

theorem attackedStep_setups {e : AttackedEvent} (h : attackedStep A hkdf psk s e = some s') :
    s.channels.setups <+: s'.channels.setups := by
  cases e with
  | dial cn sn total =>
    simp only [attackedStep] at h
    split_ifs at h
    · cases h; exact List.prefix_rfl
    · split at h
      · cases h
      · rename_i ch hch
        obtain ⟨⟨ok, ch'⟩, hw, rfl⟩ := Option.map_eq_some_iff.1 h
        exact (channelStep_setups hch).trans (Channels.write_setups hw)
  | rotate k key =>
    obtain ⟨ch, hch, rfl⟩ := Option.map_eq_some_iff.1 (by simpa only [attackedStep] using h)
    exact channelStep_setups hch
  | accept k cn sn offset =>
    obtain ⟨ch, hch, rfl⟩ := Option.map_eq_some_iff.1 (by simpa only [attackedStep] using h)
    exact channelStep_setups hch
  | deliver bytes =>
    simp only [attackedStep] at h
    split at h
    · split at h
      · cases h; exact List.prefix_rfl
      · split_ifs at h
        · cases h
          unfold Attacked.onFrame
          split
          · exact List.prefix_rfl
          · split <;> exact List.prefix_rfl
        · cases h; exact List.prefix_rfl
        · cases h; exact List.prefix_rfl
    · cases h
  | _ =>
    simp only [attackedStep] at h
    all_goals
      repeat' split at h
    all_goals
      first
      | cases h; done
      | cases h; exact List.prefix_rfl
      | obtain ⟨⟨ok, ch⟩, hw, rfl⟩ := Option.map_eq_some_iff.1 h
        exact Channels.write_setups hw

/-- Nothing the daemon has written and no key setup is lost along a run. -/
theorem attackedRun_grows {es : List AttackedEvent}
    (h : (attackedSystem A hkdf psk).run s es = some s') :
    (∀ k, (s.feeds k).stream <+: (s'.feeds k).stream) ∧
      s.channels.setups <+: s'.channels.setups := by
  induction es generalizing s with
  | nil => cases h; exact ⟨fun _ => List.prefix_rfl, List.prefix_rfl⟩
  | cons e es ih =>
    rw [System.run_cons, Option.bind_eq_some_iff] at h
    obtain ⟨s₁, h₁, h₂⟩ := h
    obtain ⟨hfeeds, hsetups⟩ := ih h₂
    exact ⟨fun k => (attackedStep_feeds h₁ k).trans (hfeeds k),
      (attackedStep_setups h₁).trans hsetups⟩

end Invariant

/-! ### What the client shows -/

/-- Stdout tells `S` up to the committed offset. -/
structure SessionOutput.Shows (S : List UInt8) (o : SessionOutput (List (Segment UInt8))) :
    Prop where
  tells : Tells S 0 o.writer
  span : span o.writer = o.received.toNat
  le : o.received.toNat ≤ S.length

/-- The pieces written for a frame of `S` tell `S` from the committed offset on. -/
theorem tells_acceptedPieces {S data : List UInt8} {received offset : UInt64}
    (hdata : data <+: S.drop offset.toNat) :
    Tells S received.toNat (acceptedPieces received offset data) := by
  unfold acceptedPieces
  split_ifs with hgap
  · rw [UInt64.lt_iff_toNat_lt] at hgap
    have hsub := UInt64.toNat_sub_of_le _ _ (UInt64.le_iff_toNat_le.2 (Nat.le_of_lt hgap))
    have hpos : received.toNat + (offset - received).toNat = offset.toNat := by omega
    rw [Nat.sub_eq_zero_of_le (Nat.le_of_lt hgap), List.drop_zero]
    simp only [List.singleton_append, Tells, hpos]
    exact ⟨hdata, trivial⟩
  · rw [UInt64.lt_iff_toNat_lt] at hgap
    have hnew := hdata.drop (received.toNat - offset.toNat)
    rw [List.drop_drop, Nat.add_sub_cancel' (by omega)] at hnew
    exact ⟨hnew, trivial⟩

/-- A frame of `S` is accepted, wherever it starts. -/
theorem SessionOutput.Shows.accept {S data : List UInt8} {offset : UInt64}
    {o : SessionOutput (List (Segment UInt8))} (h : o.Shows S) (hS : S.length < 2 ^ 64)
    (hend : offset.toNat + data.length ≤ S.length) (hdata : data <+: S.drop offset.toNat) :
    ∃ o', o.accept recording offset data = (.ok (), o') ∧ o'.Shows S := by
  rcases Nat.lt_or_ge o.received.toNat (offset.toNat + data.length) with hnew | hold
  · have hnat : (UInt64.ofNat (offset.toNat + data.length)).toNat = offset.toNat + data.length :=
      toNat_ofNat_of_lt (by omega)
    refine ⟨_, o.accept_recording hnat (by omega), ?_, ?_, ?_⟩
    · rw [tells_append, Nat.zero_add, h.span]
      exact ⟨h.tells, tells_acceptedPieces hdata⟩
    · dsimp only
      rw [span_append, span_acceptedPieces hnew, h.span]
      omega
    · dsimp only
      omega
  · exact ⟨o, o.accept_of_le recording hold, h⟩

/-- A frame that `server_writer` may send after the `Hello`. -/
theorem SessionOutput.Shows.handle {S : List UInt8} {o : SessionOutput (List (Segment UInt8))}
    {f : Frame} (h : o.Shows S) (hS : S.length < 2 ^ 64) (hf : f.Carries S) (hhello : f ≠ .hello)
    (hended : f ≠ .ended) : ∃ o', clientHandle o f = (.ok (), o') ∧ o'.Shows S := by
  cases f with
  | output offset bytes => exact h.accept hS hf.1 hf.2
  | ping => exact ⟨o, rfl, h⟩
  | pong => exact ⟨o, rfl, h⟩
  | hello => exact absurd rfl hhello
  | ended => exact absurd rfl hended
  | _ => exact hf.elim

section Run

variable {Key : Type} {A : Aead Key} {hkdf : List UInt8 → List UInt8 → List UInt8 → Key}
  {psk : Psk} {target : ℕ} {s s' F : Attacked Key}

/-- No other session has the client's PSK. -/
def Attacked.OwnPsk (s : Attacked Key) (psk : Psk) (target : ℕ) : Prop :=
  ∀ (i : ℕ) (c : KeySetup), s.channels.setups[i]? = some c → c.party = .daemon → c.psk = psk →
    s.sessionOf i = target

/-- What opens for the client was sealed by the daemon for the client's session, and it is the
`Hello` exactly when the client waits for it. -/
theorem Attacked.Honest.carries_of_read (hF : F.Honest A hkdf psk)
    (hideal : IdealTraffic A hkdf F.channels) (howner : F.OwnPsk psk target) {d : Dialed Key}
    {setups : List KeySetup} (hd : d.Ok hkdf psk setups) (hsub : setups <+: F.channels.setups)
    {bytes r : List UInt8} {f : Frame} {opener : Opener Key}
    (hread : readFrame A bytes d.opener = (.ok f, r, opener)) :
    f.Carries (F.feeds target).stream ∧ (f = .hello ↔ d.greeted = false) := by
  obtain ⟨hget, hparty, hpsk, hkey, hdir, hgreeted⟩ := hd
  have hmem : d.setup ∈ F.channels.setups := hsub.subset (List.mem_of_getElem? hget)
  obtain ⟨ct, pt, hopen, hdec⟩ := readFrame_eq_ok hread
  obtain ⟨hdecrypt, -⟩ := Opener.open_eq_ok hopen
  rw [hkey, hdir] at hdecrypt
  obtain ⟨i, c, n, hi, hckey, hnonce, hf⟩ :=
    hF.sealed_ _ (hideal.authentic d.setup hmem _ _ _ hdecrypt)
  obtain ⟨hcdir, hcount⟩ := nonceFor_inj hnonce
  have hdaemon : c.party = .daemon := Party.dir_injective hcdir.symm
  obtain ⟨hcpsk, -⟩ := hideal.fresh.derive _ hmem _ (List.mem_of_getElem? hi) hckey
  have hsession := howner i c hi hdaemon (hcpsk.symm.trans hpsk)
  obtain ⟨f', hpt, hcarries, hhello⟩ := hf hdaemon
  dsimp only at hpt
  rw [hpt] at hdec
  rw [Frame.eq_of_decode_encode hdec]
  rw [hsession] at hcarries
  rw [← hcount] at hhello
  exact ⟨hcarries, hhello.trans hgreeted.symm⟩

/-- The client shows its session's output, and has met no fatal error. -/
structure Attacked.Safe (S : List UInt8) (s : Attacked Key) : Prop where
  shows_ : s.client.Shows S
  notFatal : s.returned ≠ some .fatal

theorem Attacked.Safe.step (h : s.Safe (F.feeds target).stream) (hs : s.Honest A hkdf psk)
    (hF : F.Honest A hkdf psk) (hideal : IdealTraffic A hkdf F.channels)
    (howner : F.OwnPsk psk target) (hlen : (F.feeds target).stream.length < 2 ^ 64)
    (hsub : s.channels.setups <+: F.channels.setups) {e : AttackedEvent}
    (hstep : attackedStep A hkdf psk s e = some s') : s'.Safe (F.feeds target).stream := by
  cases e with
  | deliver bytes =>
    simp only [attackedStep] at hstep
    split at hstep
    · rename_i d hd
      split at hstep
      · cases hstep; exact ⟨h.shows_, h.notFatal⟩
      · rename_i f r opener hread
        obtain ⟨hcarries, hhello⟩ := hF.carries_of_read hideal howner (hs.dialed d hd) hsub hread
        split_ifs at hstep with hg hf
        · cases hstep
          have hne : f ≠ .hello := by
            intro hf
            rw [hhello.1 hf] at hg
            cases hg
          unfold Attacked.onFrame
          split
          · exact ⟨h.shows_, nofun⟩
          · rename_i hended
            obtain ⟨o, ho, hshows⟩ := h.shows_.handle hlen hcarries hne hended
            rw [ho]
            exact ⟨hshows, h.notFatal⟩
        · cases hstep; exact ⟨h.shows_, h.notFatal⟩
        · exact absurd (hhello.2 (Bool.eq_false_iff.2 hg)) hf
    · cases hstep
  | dial cn sn total =>
    simp only [attackedStep] at hstep
    split_ifs at hstep
    · cases hstep; exact ⟨h.shows_, nofun⟩
    · split at hstep
      · cases hstep
      · obtain ⟨x, -, rfl⟩ := Option.map_eq_some_iff.1 hstep
        exact ⟨h.shows_, h.notFatal⟩
  | _ =>
    simp only [attackedStep] at hstep
    all_goals
      repeat' split at hstep
    all_goals
      first
      | cases hstep; done
      | cases hstep; exact ⟨h.shows_, h.notFatal⟩
      | obtain ⟨x, -, rfl⟩ := Option.map_eq_some_iff.1 hstep
        exact ⟨h.shows_, h.notFatal⟩

theorem attacked_safe (hs : (attackedSystem A hkdf psk).Reachable s)
    (hideal : IdealTraffic A hkdf s.channels) (howner : s.OwnPsk psk target)
    (hlen : ∀ k, (s.feeds k).stream.length < 2 ^ 64) : s.Safe (s.feeds target).stream := by
  have hF := attacked_honest hs hlen
  have hsafe : (attackedSystem A hkdf psk).Reachable s ∧ s.Safe (s.feeds target).stream := by
    refine @System.invariant_to _ _ (attackedSystem A hkdf psk)
      (fun s₁ => (attackedSystem A hkdf psk).Reachable s₁ ∧ s₁.Safe (s.feeds target).stream)
      _ hs (fun s₁ hi => ⟨.init hi, ?_⟩)
      (fun s₁ e s₂ es ih hst hes => ⟨ih.1.step trivial hst, ?_⟩)
    · obtain ⟨-, -, -, -, -, hclient, hret⟩ := hi
      refine ⟨?_, by rw [hret]; exact nofun⟩
      rw [hclient]
      exact ⟨trivial, rfl, Nat.zero_le _⟩
    · have hrun : (attackedSystem A hkdf psk).run s₁ (e :: es) = some s := by
        rw [System.run_cons, hst]
        exact hes
      obtain ⟨hfeeds, hsetups⟩ := attackedRun_grows hrun
      exact ih.2.step
        (attacked_honest ih.1 fun k => Nat.lt_of_le_of_lt (hfeeds k).length_le (hlen k))
        hF hideal howner (hlen target) hsetups hst
  exact hsafe.2

/-- **Output integrity.**  Whatever the network does, what the client shows is its session's
output up to the committed offset, in order and each byte once, without the announced gaps; and no
record it is handed ends the session with a fatal error. -/
theorem output_integrity (A : Aead Key) (hkdf : List UInt8 → List UInt8 → List UInt8 → Key)
    (psk : Psk) (target : ℕ) (s : Attacked Key) (hs : (attackedSystem A hkdf psk).Reachable s)
    (hideal : IdealTraffic A hkdf s.channels) (howner : s.OwnPsk psk target)
    (hlen : ∀ k, (s.feeds k).stream.length < 2 ^ 64) :
    payload s.client.writer = without
        ((s.feeds target).stream.take s.client.received.toNat) (gaps 0 s.client.writer) ∧
      span s.client.writer = s.client.received.toNat ∧
      s.client.received.toNat ≤ (s.feeds target).stream.length ∧
      s.returned ≠ some .fatal := by
  obtain ⟨hshows, hnot⟩ := attacked_safe hs hideal howner hlen
  have hpay := hshows.tells.payload_eq (by rw [hshows.span]; exact hshows.le)
  rw [hshows.span] at hpay
  exact ⟨hpay, hshows.span, hshows.le, hnot⟩

end Run

/-- A cipher that opens the records of `es`. -/
def recordsAead (es : List (Encryption (List UInt8))) : Aead (List UInt8) where
  encrypt _ nonce pt := some (nonce ++ pt)
  decrypt key nonce ct :=
    (es.find? fun e => e.key = key ∧ e.nonce = nonce ∧ ct = nonce ++ e.plaintext).map (·.plaintext)

theorem recordsAead_authentic {es : List (Encryption (List UInt8))} {key nonce ct pt : List UInt8}
    (h : (recordsAead es).decrypt key nonce ct = some pt) : ⟨key, nonce, pt⟩ ∈ es := by
  obtain ⟨e, he, rfl⟩ := Option.map_eq_some_iff.1 h
  have hmem := List.mem_of_find?_eq_some he
  have hfound := List.find?_some he
  simp only [decide_eq_true_eq] at hfound
  rw [← hfound.1, ← hfound.2.1]
  exact hmem

/-- The records of a connection on which the daemon sends three bytes. -/
def outputRecords : List (Encryption (List UInt8)) :=
  let key := knownOffer.setup.key concatKdf
  [⟨key, nonceFor dirClientToServer 0, Frame.hello.encode⟩,
    ⟨key, nonceFor dirServerToClient 0, Frame.hello.encode⟩,
    ⟨key, nonceFor dirServerToClient 1, (Frame.output 0 [1, 2, 3]).encode⟩]

def recordBytes (e : Encryption (List UInt8)) : List UInt8 :=
  u32ToBe (UInt32.ofNat (e.nonce ++ e.plaintext).length) ++ (e.nonce ++ e.plaintext)

/-- The output is delivered twice. -/
def replayedOutput : List AttackedEvent :=
  let cn := knownOffer.hello.clientNonce
  let sn := knownOffer.serverNonce
  let deliveries := outputRecords.tail.map fun e => AttackedEvent.deliver (recordBytes e)
  [.append 0 [1, 2, 3], .accept 0 cn sn 0, .resume 0, .dial cn sn 3,
    .authenticate 0 ((outputRecords.take 1).flatMap recordBytes), .iterate 0] ++ deliveries ++
    deliveries.drop 1

/-- One session, with the client's PSK. -/
def beforeAttack : Attacked (List UInt8) where
  channels := noChannels
  feeds _ := ⟨[], RingBuf.new 8⟩
  sessionOf _ := 0
  served _ := none
  dialed := none
  client := .new []
  returned := none

/-- The second copy does not open. -/
theorem output_integrity_replayed : ∃ s,
    (attackedSystem (recordsAead outputRecords) concatKdf knownOffer.psk).run beforeAttack
        replayedOutput = some s ∧
      s.client.writer = [.bytes [1, 2, 3]] ∧ s.dialed.isNone ∧
      payload s.client.writer = without
        ((s.feeds 0).stream.take s.client.received.toNat) (gaps 0 s.client.writer) := by
  have hrun : (attackedSystem (recordsAead outputRecords) concatKdf knownOffer.psk).run
    beforeAttack replayedOutput = some _ := rfl
  have hinit : (attackedSystem (recordsAead outputRecords) concatKdf knownOffer.psk).init
      beforeAttack := ⟨rfl, rfl, fun _ => ⟨8, rfl⟩, fun _ => rfl, rfl, rfl, rfl⟩
  have hs := System.reachable_of_run replayedOutput hinit hrun
  have hlen : ∀ k, (Function.update beforeAttack.feeds 0 ⟨[1, 2, 3],
      (RingBuf.new 8).append [1, 2, 3]⟩ k).stream.length < 2 ^ 64 := by
    intro k
    by_cases hk : k = 0
    · rw [hk, Function.update_self]
      decide
    · rw [Function.update_of_ne hk]
      show ([] : List UInt8).length < 2 ^ 64
      exact Nat.two_pow_pos 64
  refine ⟨_, hrun, rfl, rfl, (output_integrity (recordsAead outputRecords) concatKdf
    knownOffer.psk 0 _ hs ⟨(attacked_honest hs hlen).reachable, ⟨by decide, fun _ _ _ _ =>
      concatKdf_injective⟩, fun _ _ _ _ _ h => recordsAead_authentic h⟩ ?_ hlen).1⟩
  intro i _ _ _ _
  show Function.update (fun _ => 0) 0 0 i = 0
  by_cases hi : i = 0
  · rw [hi, Function.update_self]
  · rw [Function.update_of_ne hi]

end Thther
