import Mathlib.Data.List.Infix
import Thther.Client.Writer
import Thther.OutputIntegrity
import Thther.Server.PtyWriter

/-!
# Clients that type, under attack

The other direction: any number of clients, each with its own stdin and PSK and one connection at a
time; the daemon's connections, which pass `Data` and `Resize` on to the PTYs; the writer threads;
and a network that is the attacker's.

* `typingSystem`: all of them, step by step;
* `Logged`: the plaintexts an end has sealed are the frames of its log;
* `SendsTyped`: what a client has sent is a part, in order, of what was typed.
-/

namespace Thther

/-- A `thther` process.  Its stdin thread reads ahead of `client_writer`. -/
structure Typist (Key : Type) where
  psk : Psk
  /-- The chunks the stdin thread has sent. -/
  typed : List (List UInt8)
  /-- How many of them `client_writer` has received. -/
  taken : ℕ
  conn : Option (Dialed Key)
  /-- `prefix_pending` -/
  prefixPending : Bool
  returned : Bool

/-- A connection of the daemon, with the opener of `server_reader`. -/
structure Hearing (Key : Type) where
  opener : Opener Key
  /-- The first record has opened to `Hello`. -/
  greeted : Bool

/-- Everything between the keyboards and the PTYs.  `log` and `heard` record what each end has
sealed and read, `owner` the client of an end. -/
structure Typing (Key : Type) where
  channels : Channels Key
  log : ℕ → List Frame
  heard : ℕ → List Frame
  owner : ℕ → Option ℕ
  typists : ℕ → Typist Key
  sessionOf : ℕ → ℕ
  served : ℕ → Option (Hearing Key)
  /-- The messages to the PTY of a session, each with the connection it came on. -/
  toPty : ℕ → List (ℕ × PtyMsg)
  pty : ℕ → PtyWriter

/-- The buffer of the stdin thread. -/
def stdinBufBytes : ℕ := 4096

inductive TypingEvent
  /-- The stdin thread of a client reads a chunk. -/
  | type (p : ℕ) (chunk : List UInt8)
  /-- `connect_once` is answered. -/
  | dial (p : ℕ) (clientNonce serverNonce : HandshakeNonce)
  /-- The client reads the first record of its connection. -/
  | greet (p : ℕ) (bytes : List UInt8)
  /-- `client_writer` receives a chunk. -/
  | stdin (p : ℕ)
  /-- The client sends anything else. -/
  | signal (p : ℕ) (f : Frame)
  /-- The client's connection is lost. -/
  | cut (p : ℕ)
  /-- The client returns. -/
  | quit (p : ℕ)
  | rotate (k : ℕ) (psk : Psk)
  /-- `handle_tcp` answers a hello for a session. -/
  | accept (k : ℕ) (clientNonce serverNonce : HandshakeNonce)
  /-- `handle_tcp` reads the first record of a connection. -/
  | authenticate (i : ℕ) (bytes : List UInt8)
  /-- `server_reader` reads a record and handles the frame. -/
  | recv (i : ℕ) (bytes : List UInt8)
  /-- `server_writer` sends a frame. -/
  | answer (i : ℕ) (f : Frame)
  /-- The daemon drops a connection. -/
  | drop (i : ℕ)
  /-- The writer thread of a PTY. -/
  | pty (k : ℕ) (call : PtyCall)

/-- What `client_writer` sends besides input. -/
def Frame.isSignal : Frame → Bool
  | .resize _ _ | .pong | .ack _ | .ping => true
  | .data _ | .output _ _ | .hello | .ended => false

section Step

variable {Key : Type} (A : Aead Key) (hkdf : List UInt8 → List UInt8 → List UInt8 → Key)

/-- `write_frame` on an end. -/
def Typing.write (s : Typing Key) (i : ℕ) (f : Frame) : Option (Bool × Typing Key) :=
  match s.channels.ends[i]? with
  | none => none
  | some c => (s.channels.write A hkdf i f).map fun (ok, channels) =>
    let log := match (writeFrame A c.sealer f).2.2 with
      | some _ => Function.update s.log i (s.log i ++ [f])
      | none => s.log
    (ok, { s with channels, log })

/-- Client `p` goes on with other local variables. -/
def Typing.setTypist (s : Typing Key) (p : ℕ) (x : Typist Key) : Typing Key :=
  { s with typists := Function.update s.typists p x }

/-- One event. -/
def typingStep (s : Typing Key) : TypingEvent → Option (Typing Key)
  | .type p chunk =>
    let x := s.typists p
    if chunk ≠ [] ∧ chunk.length ≤ stdinBufBytes then
      some (s.setTypist p { x with typed := x.typed ++ [chunk] })
    else none
  | .dial p clientNonce serverNonce =>
    let x := s.typists p
    if x.conn.isSome ∨ x.returned then none
    else
      let i := s.channels.ends.length
      let setup : KeySetup := ⟨.client, x.psk, clientNonce, serverNonce⟩
      match channelStep A hkdf s.channels (.connect x.psk clientNonce serverNonce) with
      | none => none
      | some channels =>
        (Typing.write A hkdf { s with channels, owner := Function.update s.owner i (some p) } i
            .hello).map fun (ok, s) =>
          s.setTypist p { x with
            conn := if ok then
              some ⟨i, setup, Opener.new (setup.key hkdf) dirServerToClient, false⟩ else none }
  | .greet p bytes =>
    let x := s.typists p
    match x.conn with
    | some d =>
      if d.greeted then none
      else
        match readFrame A bytes d.opener with
        | (.ok .hello, _, opener) =>
          some (s.setTypist p { x with
            conn := some { d with opener, greeted := true }
            prefixPending := false })
        | (.ok _, _, _) => some (s.setTypist p { x with conn := none, returned := true })
        | (.error _, _, _) => some (s.setTypist p { x with conn := none })
    | none => none
  | .stdin p =>
    let x := s.typists p
    match x.conn, x.typed[x.taken]? with
    | some d, some bytes =>
      if d.greeted then
        let x := { x with taken := x.taken + 1 }
        match scanStdin x.prefixPending [] bytes with
        | .detached _ => some (s.setTypist p { x with conn := none, returned := true })
        | .done out prefixPending =>
          let x := { x with prefixPending }
          if out ≠ [] then
            (s.write A hkdf d.index (.data out)).map fun (ok, s) =>
              s.setTypist p { x with conn := if ok then some d else none }
          else some (s.setTypist p x)
      else none
    | _, _ => none
  | .signal p f =>
    let x := s.typists p
    match x.conn with
    | some d =>
      if d.greeted ∧ f.isSignal then
        (s.write A hkdf d.index f).map fun (ok, s) =>
          s.setTypist p { x with conn := if ok then some d else none }
      else none
    | none => none
  | .cut p => some (s.setTypist p { s.typists p with conn := none })
  | .quit p => some (s.setTypist p { s.typists p with conn := none, returned := true })
  | .rotate k psk =>
    (channelStep A hkdf s.channels (.rotate k psk)).map fun channels => { s with channels }
  | .accept k clientNonce serverNonce =>
    let i := s.channels.ends.length
    let setup : KeySetup := ⟨.daemon, s.channels.psks k, clientNonce, serverNonce⟩
    (channelStep A hkdf s.channels (.accept k clientNonce serverNonce)).map fun channels =>
      { s with
        channels
        sessionOf := Function.update s.sessionOf i k
        served := Function.update s.served i
          (some ⟨Opener.new (setup.key hkdf) dirClientToServer, false⟩) }
  | .authenticate i bytes =>
    match s.served i with
    | some ⟨o, false⟩ =>
      match readFrame A bytes o with
      | (.ok .hello, _, o) =>
        (Typing.write A hkdf { s with heard := Function.update s.heard i [.hello] } i .hello).map
          fun (ok, s) =>
            { s with
              served := Function.update s.served i (if ok then some ⟨o, true⟩ else none) }
      | _ => some { s with served := Function.update s.served i none }
    | _ => none
  | .recv i bytes =>
    match s.served i with
    | some ⟨o, true⟩ =>
      match readFrame A bytes o with
      | (.ok f, _, o) =>
        let k := s.sessionOf i
        let msgs := f.toPty.toList.map fun m => (i, m)
        some { s with
          heard := Function.update s.heard i (s.heard i ++ [f])
          served := Function.update s.served i (some ⟨o, true⟩)
          toPty := Function.update s.toPty k (s.toPty k ++ msgs) }
      | (.error _, _, _) => some { s with served := Function.update s.served i none }
    | _ => none
  | .answer i f =>
    match s.served i with
    | some ⟨o, true⟩ =>
      (s.write A hkdf i f).map fun (ok, s) =>
        { s with served := Function.update s.served i (if ok then some ⟨o, true⟩ else none) }
    | _ => none
  | .drop i => some { s with served := Function.update s.served i none }
  | .pty k call =>
    (ptyWriterStep ((s.toPty k).map Prod.snd) (s.pty k) call).map fun w =>
      { s with pty := Function.update s.pty k w }

/-- All runs, for any clients, keys and terminal sizes. -/
def typingSystem : System (Typing Key) TypingEvent where
  init s := s.channels.ends = [] ∧ s.channels.encryptions = [] ∧ (∀ i, s.log i = []) ∧
    (∀ i, s.heard i = []) ∧ (∀ i, s.owner i = none) ∧
    (∀ p, (s.typists p).typed = [] ∧ (s.typists p).taken = 0 ∧ (s.typists p).conn = none ∧
      (s.typists p).prefixPending = false) ∧
    (∀ i, s.served i = none) ∧ (∀ k, s.toPty k = []) ∧ ∀ k, ∃ size, s.pty k = PtyWriter.new size
  step := typingStep A hkdf

end Step

/-! ### The frames an end has sealed -/

section Sealed

variable {Key : Type} {A : Aead Key} {hkdf : List UInt8 → List UInt8 → List UInt8 → Key}

theorem fresh_of_run {s s' : Channels Key} {es : List ChannelEvent}
    (h : (channelSystem A hkdf).run s es = some s') (hf : Fresh hkdf s'.setups) :
    Fresh hkdf s.setups := by
  induction es generalizing s with
  | nil =>
    cases h
    exact hf
  | cons e es ih =>
    rw [System.run_cons, Option.bind_eq_some_iff] at h
    obtain ⟨s₁, h₁, h₂⟩ := h
    exact fresh_of_step h₁ (ih h₂)

theorem setups_of_run {s s' : Channels Key} {es : List ChannelEvent}
    (h : (channelSystem A hkdf).run s es = some s') : s.setups <+: s'.setups := by
  induction es generalizing s with
  | nil =>
    cases h
    exact List.prefix_rfl
  | cons e es ih =>
    rw [System.run_cons, Option.bind_eq_some_iff] at h
    obtain ⟨s₁, h₁, h₂⟩ := h
    exact (channelStep_setups h₁).trans (ih h₂)

/-- `write_frame` on end `i`, and the log of what it has sealed. -/
structure Wrote (A : Aead Key) (hkdf : List UInt8 → List UInt8 → List UInt8 → Key)
    (ch : Channels Key) (log : ℕ → List Frame) (i : ℕ) (f : Frame) (ok : Bool)
    (ch' : Channels Key) (log' : ℕ → List Frame) : Prop where
  write : ch.write A hkdf i f = some (ok, ch')
  log : ∃ c : ChannelEnd Key, ch.ends[i]? = some c ∧
    log' = match (writeFrame A c.sealer f).2.2 with
      | some _ => Function.update log i (log i ++ [f])
      | none => log

theorem Typing.write_eq_some {s s' : Typing Key} {i : ℕ} {f : Frame} {ok : Bool}
    (h : s.write A hkdf i f = some (ok, s')) : ∃ ch log,
      Wrote A hkdf s.channels s.log i f ok ch log ∧ s' = { s with channels := ch, log } := by
  unfold Typing.write at h
  cases hi : s.channels.ends[i]? with
  | none =>
    rw [hi] at h
    cases h
  | some c =>
    rw [hi] at h
    obtain ⟨⟨ok', ch⟩, hw, heq⟩ := Option.map_eq_some_iff.1 h
    cases heq
    exact ⟨ch, _, ⟨hw, c, hi, rfl⟩, rfl⟩

theorem writeFrame_call (A : Aead Key) (s : Sealer Key) (f : Frame) :
    (writeFrame A s f).2.2 = (s.seal A f.encode).2.2 := by
  unfold writeFrame
  rcases hseal : s.seal A f.encode with ⟨res, sealer, call⟩
  cases res with
  | error e => rfl
  | ok ct =>
    dsimp only
    split_ifs <;> rfl

variable [DecidableEq Key]

/-- A write adds its plaintext to what its own end has sealed, and to no other's. -/
theorem Channels.write_sealedBy {s s' : Channels Key} {i : ℕ} {f : Frame} {ok : Bool}
    (hinv : s.Inv hkdf) (hf : Fresh hkdf s.setups) (h : s.write A hkdf i f = some (ok, s'))
    {c : ChannelEnd Key} (hi : s.ends[i]? = some c) {j : ℕ} {d : KeySetup}
    (hj : s.setups[j]? = some d) :
    s'.sealedBy hkdf d = s.sealedBy hkdf d ++
      if j = i then (writeFrame A c.sealer f).2.2.toList.map (·.plaintext) else [] := by
  unfold Channels.write at h
  rw [hi] at h
  obtain ⟨s₁, hstep, heq⟩ := Option.map_eq_some_iff.1 h
  cases heq
  simp only [channelStep, hi, Option.some.injEq] at hstep
  subst hstep
  obtain ⟨hkey, hdir⟩ := hinv.keys c (List.mem_of_getElem? hi)
  rw [Channels.sealedBy, Channels.sealedBy, Channels.encryptionsOf, Channels.encryptionsOf,
    List.filter_append, List.map_append, writeFrame_call]
  congr 1
  rcases c.sealer.seal_cases A f.encode with ⟨-, hseal⟩ | ⟨counter, res, -, hseal, -⟩
  · rw [hseal]
    simp
  · rw [hseal]
    simp only [Option.toList_some, List.map_singleton, List.filter_singleton]
    by_cases hij : j = i
    · -- the writing end itself
      have hd : d = c.setup := by
        rw [hij, Channels.setups_getElem? hi, Option.some.injEq] at hj
        exact hj.symm
      have hpass : c.sealer.key = c.setup.key hkdf ∧
          (nonceFor c.sealer.dir c.sealer.counter).head? = some c.setup.party.dir :=
        ⟨hkey, by rw [hdir, head?_nonceFor]⟩
      rw [if_pos hij, hd, decide_eq_true hpass]
      rfl
    · have hskip : ¬ (c.sealer.key = d.key hkdf ∧
          (nonceFor c.sealer.dir c.sealer.counter).head? = some d.party.dir) := by
        rintro ⟨hk, hh⟩
        rw [hdir, head?_nonceFor, Option.some.injEq] at hh
        exact hij (hf.index_eq hj (Channels.setups_getElem? hi) (Party.dir_injective hh).symm
          (hk.symm.trans hkey))
      rw [if_neg hij, decide_eq_false hskip]
      rfl

variable (A hkdf) in
/-- The plaintexts an end has sealed are the frames of its log. -/
structure Logged (ch : Channels Key) (log : ℕ → List Frame) : Prop where
  reachable : (channelSystem A hkdf).Reachable ch
  sealed_ : ∀ (j : ℕ) c, ch.setups[j]? = some c →
    ch.sealedBy hkdf c = (log j).map Frame.encode
  unused : ∀ j, ch.ends.length ≤ j → log j = []

omit [DecidableEq Key] in
theorem Wrote.setups {ch ch' : Channels Key} {log log' : ℕ → List Frame} {i : ℕ} {f : Frame}
    {ok : Bool} (h : Wrote A hkdf ch log i f ok ch' log')
    (hr : (channelSystem A hkdf).Reachable ch) :
    ch'.setups = ch.setups ∧ ch'.ends.length = ch.ends.length := by
  obtain ⟨-, hsetups, c, sealer, -, hends, -⟩ := Channels.write_eq_some hr h.write
  refine ⟨hsetups, ?_⟩
  rw [hends, List.length_set]

theorem Logged.wrote {ch ch' : Channels Key} {log log' : ℕ → List Frame} {i : ℕ} {f : Frame}
    {ok : Bool} (h : Logged A hkdf ch log) (hf : Fresh hkdf ch.setups)
    (hw : Wrote A hkdf ch log i f ok ch' log') : Logged A hkdf ch' log' := by
  obtain ⟨hsetups, hlen⟩ := hw.setups h.reachable
  obtain ⟨hreach, -⟩ := Channels.write_eq_some h.reachable hw.write
  obtain ⟨c, hi, hlog⟩ := hw.log
  have hilt := (List.getElem?_eq_some_iff.1 hi).1
  refine ⟨hreach, fun j d hj => ?_, fun j hj => ?_⟩
  · rw [hsetups] at hj
    rw [Channels.write_sealedBy (channels_inv h.reachable) hf hw.write hi hj,
      h.sealed_ j d hj, hlog, writeFrame_call]
    rcases c.sealer.seal_cases A f.encode with ⟨-, hseal⟩ | ⟨counter, res, -, hseal, -⟩
    · rw [hseal]
      simp
    · rw [hseal]
      by_cases hij : j = i
      · subst hij
        simp
      · simp [hij]
  · rw [hlen] at hj
    have hne : j ≠ i := by omega
    rw [hlog]
    split
    · rw [Function.update_of_ne hne]
      exact h.unused j hj
    · exact h.unused j hj

/-- Frames read from what an end has sealed are the first ones of its log. -/
theorem Logged.isPrefix {ch : Channels Key} {log : ℕ → List Frame} (h : Logged A hkdf ch log)
    {j : ℕ} {c : KeySetup} (hj : ch.setups[j]? = some c) {fs : List Frame}
    (hreads : fs.map Except.ok <+: (ch.sealedBy hkdf c).map Frame.decode) : fs <+: log j := by
  rw [h.sealed_ j c hj, List.prefix_iff_getElem?] at hreads
  rw [List.prefix_iff_getElem?]
  intro n hn
  have hget := hreads n (by simpa using hn)
  rw [List.getElem?_map, List.getElem?_map] at hget
  cases hlog : (log j)[n]? with
  | none =>
    rw [hlog] at hget
    cases hget
  | some f =>
    rw [hlog, List.getElem_map] at hget
    simp only [Option.map_some, Option.some.injEq] at hget
    rw [Frame.eq_of_decode_encode hget]

theorem Logged.add {ch : Channels Key} {log : ℕ → List Frame} {c : KeySetup} {e : ChannelEvent}
    (h : Logged A hkdf ch log) (he : channelStep A hkdf ch e = some (ch.add hkdf c))
    (hf : Fresh hkdf (ch.add hkdf c).setups) : Logged A hkdf (ch.add hkdf c) log := by
  have hreach := Channels.reachable_step h.reachable he
  refine ⟨hreach, fun j d hj => ?_, fun j hj => ?_⟩
  · rcases Nat.lt_or_ge j ch.ends.length with hlt | hge
    · refine h.sealed_ j d ?_
      rw [Channels.setups, Channels.add, List.map_append,
        List.getElem?_append_left (by simpa using hlt)] at hj
      exact hj
    · -- the new end has sealed nothing
      have hlast : (ch.add hkdf c).ends[ch.ends.length]? = some ⟨c, c.sealer hkdf⟩ :=
        Channels.add_getElem? _ _
      have hj' : j = ch.ends.length := by
        have hjlt := (List.getElem?_eq_some_iff.1 hj).1
        rw [Channels.setups, Channels.add, List.length_map, List.length_append,
          List.length_singleton] at hjlt
        omega
      have hd : d = c := by
        rw [hj', Channels.setups_getElem? hlast, Option.some.injEq] at hj
        exact hj.symm
      have hstep := channels_inStep hreach hf _ _ hlast
      have hnil : (ch.add hkdf c).encryptionsOf hkdf c = [] := List.map_eq_nil_iff.1 hstep
      rw [hj', hd, h.unused _ (Nat.le_refl _), Channels.sealedBy, hnil]
      rfl
  · refine h.unused j ?_
    rw [Channels.add, List.length_append] at hj
    omega

end Sealed

/-! ### What a client sends -/

section Sent

open Escape

/-- The ends of client `p` among the first `n`. -/
def connsOf (owner : ℕ → Option ℕ) (n p : ℕ) : List ℕ :=
  (List.range n).filter fun j => owner j = some p

/-- The input a client has sealed, over all its connections. -/
def sentOf (owner : ℕ → Option ℕ) (log : ℕ → List Frame) (n p : ℕ) : List UInt8 :=
  (connsOf owner n p).flatMap fun j => dataPayload (log j)

variable {owner : ℕ → Option ℕ} {log : ℕ → List Frame} {n p : ℕ}

theorem mem_connsOf {j : ℕ} : j ∈ connsOf owner n p ↔ j < n ∧ owner j = some p := by
  simp [connsOf]

theorem nodup_connsOf (owner : ℕ → Option ℕ) (n p : ℕ) : (connsOf owner n p).Nodup :=
  List.nodup_range.filter _

theorem connsOf_succ (owner : ℕ → Option ℕ) (n p : ℕ) :
    connsOf owner (n + 1) p = connsOf owner n p ++ if owner n = some p then [n] else [] := by
  unfold connsOf
  rw [List.range_succ, List.filter_append, List.filter_singleton]
  congr 1
  by_cases h : owner n = some p
  · simp [h]
  · simp [h]

/-- A new end leaves the earlier ones to their clients. -/
theorem connsOf_update (o : Option ℕ) : connsOf (Function.update owner n o) n p =
    connsOf owner n p := by
  refine List.filter_congr fun j hj => ?_
  rw [Function.update_of_ne (Nat.ne_of_lt (List.mem_range.1 hj))]

theorem sentOf_congr {log' : ℕ → List Frame}
    (h : ∀ j ∈ connsOf owner n p, dataPayload (log' j) = dataPayload (log j)) :
    sentOf owner log' n p = sentOf owner log n p := by
  unfold sentOf
  rw [List.flatMap_def, List.flatMap_def, List.map_congr_left h]

/-- Input sealed on the last of the connections. -/
theorem sentOf_update {l : List ℕ} {i : ℕ} (hl : connsOf owner n p = l ++ [i]) (fs : List Frame) :
    sentOf owner (Function.update log i (log i ++ fs)) n p =
      sentOf owner log n p ++ dataPayload fs := by
  have hnot : ∀ j ∈ l, j ≠ i := by
    have hnd := nodup_connsOf owner n p
    rw [hl, List.nodup_append] at hnd
    intro j hj
    exact hnd.2.2 j hj i (List.mem_singleton_self i)
  have hold : l.map (fun j => dataPayload (Function.update log i (log i ++ fs) j)) =
      l.map fun j => dataPayload (log j) :=
    List.map_congr_left fun j hj => by rw [Function.update_of_ne (hnot j hj)]
  unfold sentOf
  rw [hl, List.flatMap_append, List.flatMap_append, List.append_assoc]
  congr 1
  · rw [List.flatMap_def, hold, List.flatMap_def]
  · simp [dataPayload_append]

/-- What the loop over a chunk puts out and holds back is what was held back before it, and the
chunk. -/
theorem scanStdin_done {pending pending' : Bool} {bytes out : List UInt8}
    (h : scanStdin pending [] bytes = .done out pending') :
    out ++ held detachPrefix pending' = held detachPrefix pending ++ bytes := by
  rw [scanStdin_eq, scanFresh] at h
  cases hd : detachAt (held detachPrefix pending ++ bytes) with
  | some i =>
    rw [hd] at h
    cases h
  | none =>
    rw [hd] at h
    cases h
    exact released_append_held _

/-- A client's ends are its own, under its PSK; the last one is the one it uses; and what it has
sent is a part, in order, of what was typed. -/
structure SendsTyped {Key : Type} (ch : Channels Key) (log : ℕ → List Frame) (owner : ℕ → Option ℕ)
    (typists : ℕ → Typist Key) : Prop where
  own : ∀ j p, owner j = some p →
    ∃ c, ch.setups[j]? = some c ∧ c.party = .client ∧ c.psk = (typists p).psk
  owned : ∀ (j : ℕ) c, ch.setups[j]? = some c → c.party = .client → ∃ p, owner j = some p
  conn : ∀ p d, (typists p).conn = some d → ∃ l, connsOf owner ch.ends.length p = l ++ [d.index]
  taken : ∀ p, (typists p).taken ≤ (typists p).typed.length
  sent : ∀ p, (sentOf owner log ch.ends.length p ++
    held detachPrefix (typists p).prefixPending).Sublist
      ((typists p).typed.take (typists p).taken).flatten

variable {Key : Type} {A : Aead Key} {hkdf : List UInt8 → List UInt8 → List UInt8 → Key}
  {ch ch' : Channels Key} {log' : ℕ → List Frame} {typists : ℕ → Typist Key}

/-- A frame is written that is no input, or by the daemon. -/
theorem SendsTyped.wrote (h : SendsTyped ch log owner typists)
    (hr : (channelSystem A hkdf).Reachable ch)
    {i : ℕ} {f : Frame} {ok : Bool} (hw : Wrote A hkdf ch log i f ok ch' log')
    (hf : dataPayload [f] = [] ∨ owner i = none) : SendsTyped ch' log' owner typists := by
  obtain ⟨hsetups, hlen⟩ := hw.setups hr
  obtain ⟨c, -, hlog⟩ := hw.log
  refine ⟨?_, ?_, ?_, h.taken, fun q => ?_⟩
  · rw [hsetups]
    exact h.own
  · rw [hsetups]
    exact h.owned
  · rw [hlen]
    exact h.conn
  · rw [hlen, sentOf_congr]
    · exact h.sent q
    · intro j hj
      rw [hlog]
      split
      · by_cases hji : j = i
        · subst hji
          rcases hf with hf | hf
          · rw [Function.update_self, dataPayload_append, hf, List.append_nil]
          · rw [(mem_connsOf.1 hj).2] at hf
            cases hf
        · rw [Function.update_of_ne hji]
      · rfl

/-- Client `p` goes on with other local variables. -/
theorem SendsTyped.set (h : SendsTyped ch log owner typists) {y : Typist Key}
    (hpsk : y.psk = (typists p).psk)
    (hconn : ∀ d, y.conn = some d → ∃ l, connsOf owner ch.ends.length p = l ++ [d.index])
    (htaken : y.taken ≤ y.typed.length)
    (hsent : (sentOf owner log ch.ends.length p ++ held detachPrefix y.prefixPending).Sublist
      (y.typed.take y.taken).flatten) :
    SendsTyped ch log owner (Function.update typists p y) := by
  have hall : ∀ q, q ≠ p → Function.update typists p y q = typists q :=
    fun q hq => Function.update_of_ne hq _ _
  refine ⟨fun j q hj => ?_, h.owned, fun q d hd => ?_, fun q => ?_, fun q => ?_⟩
  · by_cases hq : q = p
    · subst hq
      rw [Function.update_self, hpsk]
      exact h.own j q hj
    · rw [hall q hq]
      exact h.own j q hj
  · by_cases hq : q = p
    · subst hq
      rw [Function.update_self] at hd
      exact hconn d hd
    · rw [hall q hq] at hd
      exact h.conn q d hd
  · by_cases hq : q = p
    · subst hq
      rw [Function.update_self]
      exact htaken
    · rw [hall q hq]
      exact h.taken q
  · by_cases hq : q = p
    · subst hq
      rw [Function.update_self]
      exact hsent
    · rw [hall q hq]
      exact h.sent q

/-- A new end has nothing to add. -/
theorem sentOf_succ (o : Option ℕ) (hlog : log n = []) :
    sentOf (Function.update owner n o) log (n + 1) p = sentOf owner log n p := by
  unfold sentOf
  rw [connsOf_succ, connsOf_update, List.flatMap_append]
  split_ifs
  · simp [hlog]
  · simp

theorem setups_add_cases {c d : KeySetup} {j : ℕ} (h : (ch.add hkdf c).setups[j]? = some d) :
    ch.setups[j]? = some d ∨ j = ch.ends.length ∧ d = c := by
  rw [Channels.setups, Channels.add, List.map_append] at h
  rcases Nat.lt_or_ge j ch.ends.length with hlt | hge
  · rw [List.getElem?_append_left (by simpa using hlt)] at h
    exact .inl h
  · have hj := (List.getElem?_eq_some_iff.1 h).1
    rw [List.length_append, List.length_map, List.length_map, List.length_singleton] at hj
    have hjn : j = ch.ends.length := by omega
    rw [hjn, List.getElem?_append_right (by simp)] at h
    simp only [List.length_map, Nat.sub_self, List.map_singleton, List.getElem?_cons_zero,
      Option.some.injEq] at h
    exact .inr ⟨hjn, h.symm⟩

theorem lt_of_setups {d : KeySetup} {j : ℕ} (h : ch.setups[j]? = some d) : j < ch.ends.length := by
  have hlt := (List.getElem?_eq_some_iff.1 h).1
  rwa [Channels.setups, List.length_map] at hlt

theorem setups_add_of_some {c d : KeySetup} {j : ℕ} (h : ch.setups[j]? = some d) :
    (ch.add hkdf c).setups[j]? = some d := by
  rw [Channels.setups, Channels.add, List.map_append,
    List.getElem?_append_left (by simpa using lt_of_setups h)]
  exact h

theorem setups_add_self (ch : Channels Key) (c : KeySetup) :
    (ch.add hkdf c).setups[ch.ends.length]? = some c :=
  Channels.setups_getElem? (Channels.add_getElem? _ _)

theorem length_add (ch : Channels Key) (c : KeySetup) :
    (ch.add hkdf c).ends.length = ch.ends.length + 1 := by
  rw [Channels.add, List.length_append, List.length_singleton]

/-- A client without a connection gets a new end. -/
theorem SendsTyped.add_client (h : SendsTyped ch log owner typists)
    (hlog : log ch.ends.length = []) (hconn : (typists p).conn = none) (cn sn : HandshakeNonce) :
    SendsTyped (ch.add hkdf ⟨.client, (typists p).psk, cn, sn⟩) log
      (Function.update owner ch.ends.length (some p)) typists := by
  refine ⟨fun j q hj => ?_, fun j c hj hc => ?_, fun q d hd => ?_, h.taken, fun q => ?_⟩
  · by_cases hjn : j = ch.ends.length
    · subst hjn
      rw [Function.update_self, Option.some.injEq] at hj
      subst hj
      exact ⟨_, setups_add_self ch _, rfl, rfl⟩
    · rw [Function.update_of_ne hjn] at hj
      obtain ⟨c, hget, hrest⟩ := h.own j q hj
      exact ⟨c, setups_add_of_some hget, hrest⟩
  · by_cases hjn : j = ch.ends.length
    · exact ⟨p, by rw [hjn, Function.update_self]⟩
    · rw [Function.update_of_ne hjn]
      rcases setups_add_cases hj with hold | ⟨hnew, -⟩
      · exact h.owned j c hold hc
      · exact absurd hnew hjn
  · have hqp : p ≠ q := by
      rintro rfl
      rw [hconn] at hd
      cases hd
    rw [length_add, connsOf_succ, connsOf_update, Function.update_self, if_neg (by simpa using hqp),
      List.append_nil]
    exact h.conn q d hd
  · rw [length_add, sentOf_succ _ hlog]
    exact h.sent q

/-- The daemon gets a new end. -/
theorem SendsTyped.add_daemon (h : SendsTyped ch log owner typists)
    (hlog : log ch.ends.length = []) {c : KeySetup} (hc : c.party = .daemon) :
    SendsTyped (ch.add hkdf c) log owner typists := by
  have hnone : owner ch.ends.length = none := by
    cases ho : owner ch.ends.length with
    | none => rfl
    | some q =>
      obtain ⟨d, hget, -⟩ := h.own _ q ho
      exact absurd (lt_of_setups hget) (Nat.lt_irrefl _)
  have hsame : Function.update owner ch.ends.length none = owner := by
    rw [← hnone, Function.update_eq_self]
  refine ⟨fun j q hj => ?_, fun j d hj hd => ?_, fun q d hd => ?_, h.taken, fun q => ?_⟩
  · obtain ⟨d, hget, hrest⟩ := h.own j q hj
    exact ⟨d, setups_add_of_some hget, hrest⟩
  · rcases setups_add_cases hj with hold | ⟨-, hnew⟩
    · exact h.owned j d hold hd
    · rw [hnew, hc] at hd
      cases hd
  · rw [length_add, connsOf_succ, hnone, if_neg (by simp), List.append_nil]
    exact h.conn q d hd
  · have hsucc : sentOf (Function.update owner ch.ends.length none) log (ch.ends.length + 1) q =
        sentOf owner log ch.ends.length q := sentOf_succ none hlog
    rw [hsame] at hsucc
    rw [length_add, hsucc]
    exact h.sent q

/-- A chunk of stdin is received: whatever of it is sent, and whatever is held back, is the next
part of what was typed. -/
theorem SendsTyped.stdin (h : SendsTyped ch log owner typists)
    (hr : (channelSystem A hkdf).Reachable ch) {d : Dialed Key}
    (hconn : (typists p).conn = some d) {bytes : List UInt8}
    (hchunk : (typists p).typed[(typists p).taken]? = some bytes) {out : List UInt8}
    {pending : Bool} (hscan : scanStdin (typists p).prefixPending [] bytes = .done out pending)
    {ok : Bool} (hw : Wrote A hkdf ch log d.index (.data out) ok ch' log')
    {conn : Option (Dialed Key)} (hnext : conn = some d ∨ conn = none) :
    SendsTyped ch' log' owner (Function.update typists p { typists p with
      taken := (typists p).taken + 1, prefixPending := pending, conn }) := by
  obtain ⟨hsetups, hlen⟩ := hw.setups hr
  obtain ⟨c, -, hlog⟩ := hw.log
  obtain ⟨l, hl⟩ := h.conn p d hconn
  have hlast : d.index ∈ connsOf owner ch.ends.length p := by
    rw [hl]
    exact List.mem_append_right _ (List.mem_singleton_self _)
  -- the input goes to the log of this client's last end
  have hother : ∀ q, q ≠ p → sentOf owner log' ch.ends.length q =
      sentOf owner log ch.ends.length q := by
    intro q hq
    refine sentOf_congr fun j hj => ?_
    have hji : j ≠ d.index := by
      rintro rfl
      have := (mem_connsOf.1 hj).2.symm.trans (mem_connsOf.1 hlast).2
      exact hq (Option.some.inj this)
    rw [hlog]
    split
    · rw [Function.update_of_ne hji]
    · rfl
  have hown : sentOf owner log' ch.ends.length p = sentOf owner log ch.ends.length p ++ out ∨
      sentOf owner log' ch.ends.length p = sentOf owner log ch.ends.length p := by
    rw [hlog]
    split
    · left
      rw [sentOf_update hl]
      simp [dataPayload]
    · exact .inr rfl
  have hread : ((typists p).typed.take ((typists p).taken + 1)).flatten =
      ((typists p).typed.take (typists p).taken).flatten ++ bytes := by
    rw [List.take_add_one, hchunk, List.flatten_append]
    simp
  have hnew : (sentOf owner log' ch.ends.length p ++ held detachPrefix pending).Sublist
      (((typists p).typed.take (typists p).taken).flatten ++ bytes) := by
    have hall : (sentOf owner log ch.ends.length p ++ (out ++ held detachPrefix pending)).Sublist
        (((typists p).typed.take (typists p).taken).flatten ++ bytes) := by
      rw [scanStdin_done hscan, ← List.append_assoc]
      exact (h.sent p).append (List.Sublist.refl _)
    rcases hown with hown | hown
    · rw [hown, List.append_assoc]
      exact hall
    · rw [hown]
      refine List.Sublist.trans ?_ hall
      exact (List.Sublist.refl _).append (List.sublist_append_right _ _)
  refine ⟨fun j q hj => ?_, ?_, fun q e he => ?_, fun q => ?_, fun q => ?_⟩
  · rw [hsetups]
    obtain ⟨x, hx, hparty, hpsk⟩ := h.own j q hj
    refine ⟨x, hx, hparty, ?_⟩
    by_cases hq : q = p
    · subst hq
      rw [Function.update_self]
      exact hpsk
    · rw [Function.update_of_ne hq]
      exact hpsk
  · rw [hsetups]
    exact h.owned
  · rw [hlen]
    by_cases hq : q = p
    · subst hq
      rw [Function.update_self] at he
      rcases hnext with hnext | hnext
      · rw [hnext, Option.some.injEq] at he
        rw [← he]
        exact ⟨l, hl⟩
      · rw [hnext] at he
        cases he
    · rw [Function.update_of_ne hq] at he
      exact h.conn q e he
  · by_cases hq : q = p
    · subst hq
      rw [Function.update_self]
      exact (List.getElem?_eq_some_iff.1 hchunk).1
    · rw [Function.update_of_ne hq]
      exact h.taken q
  · rw [hlen]
    by_cases hq : q = p
    · subst hq
      rw [Function.update_self]
      dsimp only
      rw [hread]
      exact hnew
    · rw [Function.update_of_ne hq, hother q hq]
      exact h.sent q

end Sent

end Thther
