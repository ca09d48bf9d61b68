import Thther.Client.Drive
import Thther.Server.Admission

/-!
# The two ends of a connection

What one end of a connection reads, and what its other end has sealed.  The network is the
attacker's: the bytes an end reads are arbitrary, and so are the nonces and totals it was told.

* `Channels.InStep`: the nonces of an end count its encryptions;
* `ReadsOf`: the frames an opener has returned, against the plaintexts of the other end;
* `secure_channel`: an end reads a prefix of what its one other end has sealed;
* `connect_authenticated`: a client past the `Hello` exchange has found its daemon.
-/

namespace Thther

/-- The other party. -/
def Party.peer : Party → Party
  | .client => .daemon
  | .daemon => .client

/-- The key setup of the other end of the connection. -/
def KeySetup.peer (c : KeySetup) : KeySetup := { c with party := c.party.peer }

variable {Key : Type}

@[simp] theorem KeySetup.key_peer (hkdf : List UInt8 → List UInt8 → List UInt8 → Key)
    (c : KeySetup) : c.peer.key hkdf = c.key hkdf := rfl

section Sealed

variable [DecidableEq Key] (hkdf : List UInt8 → List UInt8 → List UInt8 → Key)

/-- The encryptions under the key and in the direction of an end, oldest first. -/
def Channels.encryptionsOf (s : Channels Key) (c : KeySetup) : List (Encryption Key) :=
  s.encryptions.filter fun e => e.key = c.key hkdf ∧ e.nonce.head? = some c.party.dir

/-- The plaintexts an end has sealed, oldest first. -/
def Channels.sealedBy (s : Channels Key) (c : KeySetup) : List (List UInt8) :=
  (s.encryptionsOf hkdf c).map (·.plaintext)

variable {hkdf} {s : Channels Key} {c : KeySetup}

theorem Channels.mem_encryptionsOf {e : Encryption Key} :
    e ∈ s.encryptionsOf hkdf c ↔
      e ∈ s.encryptions ∧ e.key = c.key hkdf ∧ e.nonce.head? = some c.party.dir := by
  simp [Channels.encryptionsOf]

@[simp] theorem head?_nonceFor (dir : UInt8) (n : UInt64) :
    (nonceFor dir n).head? = some dir := rfl

variable (hkdf)

/-- The encryptions of every end have the nonces of its counter, from 0 on. -/
def Channels.InStep (s : Channels Key) : Prop :=
  ∀ (i : ℕ) (c : ChannelEnd Key), s.ends[i]? = some c →
    (s.encryptionsOf hkdf c.setup).map (·.nonce) =
    (List.range c.sealer.counter.toNat).map fun n => nonceFor c.setup.party.dir (UInt64.ofNat n)

variable {hkdf}

omit [DecidableEq Key] in
theorem Channels.setups_getElem? {i : ℕ} {c : ChannelEnd Key} (hi : s.ends[i]? = some c) :
    s.setups[i]? = some c.setup := by
  rw [Channels.setups, List.getElem?_map, hi]
  rfl

/-- A new end has sealed nothing. -/
theorem Channels.InStep.add (h : s.InStep hkdf) (hinv : s.Inv hkdf)
    (hf : Fresh hkdf (s.add hkdf c).setups) : (s.add hkdf c).InStep hkdf := by
  intro i d hi
  rcases Nat.lt_or_ge i s.ends.length with hlt | hge
  · exact h i d (by rwa [Channels.add, List.getElem?_append_left hlt] at hi)
  · have hnew : (s.add hkdf c).encryptionsOf hkdf c = [] := by
      rw [List.eq_nil_iff_forall_not_mem]
      intro e he
      obtain ⟨hmem, hkey, hhead⟩ := Channels.mem_encryptionsOf.1 he
      obtain ⟨j, x, n, hj, -, hkey', hnonce⟩ := hinv.used e hmem
      rw [hnonce, head?_nonceFor, Option.some.injEq] at hhead
      have hjlt := (List.getElem?_eq_some_iff.1 hj).1
      have hold : (s.add hkdf c).setups[j]? = some x.setup := by
        refine Channels.setups_getElem? ?_
        rwa [Channels.add, List.getElem?_append_left hjlt]
      have hlast : (s.add hkdf c).setups[s.ends.length]? = some c := by
        refine Channels.setups_getElem? (c := ⟨c, c.sealer hkdf⟩) ?_
        rw [Channels.add, List.getElem?_concat_length]
      have := hf.index_eq hold hlast (Party.dir_injective hhead) (hkey'.symm.trans hkey)
      omega
    rw [Channels.add, List.getElem?_append_right hge, List.getElem?_singleton] at hi
    split_ifs at hi
    cases hi
    rw [hnew]
    rfl

/-- A seal adds to the encryptions of its own end only. -/
theorem Channels.InStep.seal {A : Aead Key} {s' : Channels Key} (h : s.InStep hkdf)
    (hinv : s.Inv hkdf) (hf : Fresh hkdf s'.setups) {i : ℕ} {pt : List UInt8}
    (hs : channelStep A hkdf s (.sealRecord i pt) = some s') : s'.InStep hkdf := by
  unfold channelStep at hs
  cases hi : s.ends[i]? with
  | none => simp [hi] at hs
  | some c =>
    obtain ⟨hlt, hc⟩ := List.getElem?_eq_some_iff.1 hi
    obtain ⟨hkey, hdir⟩ := hinv.keys c (List.mem_of_getElem? hi)
    rcases c.sealer.seal_cases A pt with ⟨-, hseal⟩ | ⟨counter, res, hcount, hseal, -⟩
    · -- an exhausted counter: nothing is encrypted and the sealer is unchanged
      have hsame : s.ends.set i c = s.ends := by rw [← hc]; exact List.set_getElem_self hlt
      simp only [hi, hseal, Option.toList_none, List.append_nil, hsame] at hs
      cases hs
      exact h
    · simp only [hi, hseal, Option.toList_some] at hs
      cases hs
      have hsetups := setups_set hi { c.sealer with counter }
      have hf' : Fresh hkdf s.setups := by rw [← hsetups]; exact hf
      intro j d hj
      by_cases hij : i = j
      · subst hij
        dsimp only at hj
        rw [List.getElem?_set_self hlt, Option.some.injEq] at hj
        subst hj
        have hpass : decide (c.sealer.key = c.setup.key hkdf ∧
            (nonceFor c.sealer.dir c.sealer.counter).head? = some c.setup.party.dir) = true := by
          rw [decide_eq_true_eq]
          exact ⟨hkey, by rw [hdir, head?_nonceFor]⟩
        have hold := h i c hi
        dsimp only
        rw [Channels.encryptionsOf, List.filter_append, List.map_append, hcount, List.range_succ,
          List.map_append]
        rw [Channels.encryptionsOf] at hold
        rw [hold, List.filter_singleton, hpass]
        simp [hdir]
      · dsimp only at hj
        rw [List.getElem?_set_ne hij] at hj
        have hskip : ¬ (c.sealer.key = d.setup.key hkdf ∧
            (nonceFor c.sealer.dir c.sealer.counter).head? = some d.setup.party.dir) := by
          rintro ⟨hk, hd⟩
          rw [hdir, head?_nonceFor, Option.some.injEq] at hd
          exact hij (hf'.index_eq (Channels.setups_getElem? hi) (Channels.setups_getElem? hj)
            (Party.dir_injective hd) (hkey.symm.trans hk))
        have hold := h j d hj
        rw [Channels.encryptionsOf] at hold ⊢
        rw [List.filter_append, List.filter_singleton, decide_eq_false hskip]
        simpa using hold

omit [DecidableEq Key] in
/-- What is fresh after a step was fresh before it. -/
theorem fresh_of_step {A : Aead Key} {s' : Channels Key} {e : ChannelEvent}
    (hs : channelStep A hkdf s e = some s') (hf : Fresh hkdf s'.setups) :
    Fresh hkdf s.setups := by
  have hadd : ∀ c, Fresh hkdf (s.add hkdf c).setups → Fresh hkdf s.setups := by
    intro c hf
    rw [Channels.setups, Channels.add, List.map_append] at hf
    exact hf.of_append
  cases e with
  | rotate i psk => cases hs; exact hf
  | connect psk cn sn => cases hs; exact hadd _ hf
  | accept i cn sn => cases hs; exact hadd _ hf
  | sealRecord i pt =>
    unfold channelStep at hs
    cases hi : s.ends[i]? with
    | none => simp [hi] at hs
    | some c =>
      simp only [hi] at hs
      cases hs
      rw [← setups_set hi]
      exact hf

theorem channels_inStep {A : Aead Key} (hs : (channelSystem A hkdf).Reachable s)
    (hf : Fresh hkdf s.setups) : s.InStep hkdf := by
  have hboth : (channelSystem A hkdf).Reachable s ∧ (Fresh hkdf s.setups → s.InStep hkdf) := by
    refine @System.invariant _ _ (channelSystem A hkdf)
      (fun s => (channelSystem A hkdf).Reachable s ∧ (Fresh hkdf s.setups → s.InStep hkdf))
      (fun s hi => ⟨.init hi, fun _ i c hc => ?_⟩) (fun s e s' ih hst => ?_) _ hs
    · rw [hi.1] at hc
      cases hc
    · refine ⟨ih.1.step trivial hst, fun hf => ?_⟩
      have hold := ih.2 (fresh_of_step hst hf)
      have hinv := channels_inv ih.1
      cases e with
      | rotate i psk => cases hst; exact hold
      | connect psk cn sn => cases hst; exact hold.add hinv hf
      | accept i cn sn => cases hst; exact hold.add hinv hf
      | sealRecord i pt => exact hold.seal hinv hf hst
  exact hboth.2 hf

end Sealed

/-! ### What an end reads -/

section Reads

variable [DecidableEq Key] {A : Aead Key}
  {hkdf : List UInt8 → List UInt8 → List UInt8 → Key} {s : Channels Key} {c : KeySetup}

/-- What opens for an end is what its other end sealed at this counter. -/
theorem IdealTraffic.sealed_of_decrypt (h : IdealTraffic A hkdf s) (hc : c ∈ s.setups)
    {m : UInt64} {ct pt : List UInt8}
    (hd : A.decrypt (c.key hkdf) (nonceFor c.peer.party.dir m) ct = some pt) :
    c.peer ∈ s.setups ∧ (s.sealedBy hkdf c.peer)[m.toNat]? = some pt := by
  have hmem := h.authentic c hc _ _ _ hd
  obtain ⟨i, d, n, hi, -, hkey, hnonce⟩ := (channels_inv h.reachable).used _ hmem
  have hdmem : d.setup ∈ s.setups := List.mem_of_getElem? (Channels.setups_getElem? hi)
  obtain ⟨hdir, -⟩ := nonceFor_inj hnonce
  obtain ⟨hpsk, hsalt⟩ := h.fresh.derive c hc d.setup hdmem hkey
  obtain ⟨hcn, hsn⟩ := salt_inj hsalt
  have hsetup : d.setup = c.peer := by
    have hparty : d.setup.party = c.peer.party := Party.dir_injective hdir.symm
    rw [show d.setup = ⟨d.setup.party, d.setup.psk, d.setup.clientNonce, d.setup.serverNonce⟩ from
      rfl, hparty, ← hpsk, ← hcn, ← hsn]
    rfl
  refine ⟨hsetup ▸ hdmem, ?_⟩
  have hstep := channels_inStep h.reachable h.fresh i d hi
  rw [hsetup] at hstep
  have hown : (⟨c.key hkdf, nonceFor c.peer.party.dir m, pt⟩ : Encryption Key) ∈
      s.encryptionsOf hkdf c.peer := Channels.mem_encryptionsOf.2 ⟨hmem, rfl, rfl⟩
  obtain ⟨j, hj⟩ := List.mem_iff_getElem?.1 hown
  -- the nonce tells the place among the other end's encryptions
  have hat := congrArg (·[j]?) hstep
  simp only [List.getElem?_map, hj, Option.map_some] at hat
  obtain ⟨k, hk, hkn⟩ := Option.map_eq_some_iff.1 hat.symm
  obtain ⟨hlt, rfl⟩ := List.getElem?_eq_some_iff.1 hk
  rw [List.length_range] at hlt
  rw [List.getElem_range] at hkn
  have hm : m.toNat = j := by
    rw [← (nonceFor_inj hkn).2]
    exact toNat_ofNat_of_lt (Nat.lt_trans hlt d.sealer.counter.toNat_lt)
  rw [hm, Channels.sealedBy, List.getElem?_map, hj]
  rfl

variable (hkdf) in
/-- The opener of an end has returned these frames, and they are the first ones its other end has
sealed. -/
structure ReadsOf (s : Channels Key) (c : KeySetup) (fs : List Frame) (o : Opener Key) : Prop where
  key : o.key = c.key hkdf
  dir : o.dir = c.peer.party.dir
  counter : o.counter.toNat = fs.length
  reads : fs.map Except.ok <+: (s.sealedBy hkdf c.peer).map Frame.decode

theorem readsOf_new (s : Channels Key) (c : KeySetup) :
    ReadsOf hkdf s c [] (Opener.new (c.key hkdf) c.peer.party.dir) where
  key := rfl
  dir := rfl
  counter := rfl
  reads := List.nil_prefix

theorem concat_isPrefix {α : Type*} {l m : List α} {x : α} (h : l <+: m)
    (hx : m[l.length]? = some x) : l ++ [x] <+: m := by
  rw [List.prefix_iff_eq_take] at h ⊢
  rw [List.length_append, List.length_singleton, List.take_add_one, hx, ← h]
  rfl

/-- One call of `read_frame` returns the next frame of the other end. -/
theorem ReadsOf.readFrame {fs : List Frame} {o o' : Opener Key} {r r' : List UInt8} {f : Frame}
    (h : ReadsOf hkdf s c fs o) (hs : IdealTraffic A hkdf s) (hc : c ∈ s.setups)
    (hr : Thther.readFrame A r o = (.ok f, r', o')) :
    c.peer ∈ s.setups ∧ ReadsOf hkdf s c (fs ++ [f]) o' := by
  obtain ⟨ct, pt, hopen, hdec⟩ := readFrame_eq_ok hr
  obtain ⟨hdecrypt, hkey, hdir, hcount⟩ := Opener.open_eq_ok hopen
  rw [h.key, h.dir] at hdecrypt
  obtain ⟨hpeer, hget⟩ := hs.sealed_of_decrypt hc hdecrypt
  refine ⟨hpeer, hkey.trans h.key, hdir.trans h.dir, ?_, ?_⟩
  · rw [hcount, h.counter, List.length_append, List.length_singleton]
  · rw [List.map_append, List.map_singleton]
    refine concat_isPrefix h.reads ?_
    rw [List.length_map, ← h.counter, List.getElem?_map, hget, Option.map_some, hdec]

theorem ReadsOf.readFrames {fs : List Frame} {o : Opener Key} (h : ReadsOf hkdf s c fs o)
    (hs : IdealTraffic A hkdf s) (hc : c ∈ s.setups) (n : ℕ) (r : List UInt8) :
    (fs ++ Thther.readFrames A n r o).map Except.ok <+:
      (s.sealedBy hkdf c.peer).map Frame.decode := by
  induction n generalizing fs r o with
  | zero =>
    rw [Thther.readFrames, List.append_nil]
    exact h.reads
  | succ n ih =>
    rw [Thther.readFrames]
    split
    · rw [List.append_nil]
      exact h.reads
    · rename_i f r' o' hread
      have hrest := ih (h.readFrame hs hc hread).2 r'
      rwa [List.append_assoc, List.singleton_append] at hrest

omit [DecidableEq Key] in
/-- An end has one other end at most. -/
theorem IdealTraffic.peer_unique (h : IdealTraffic A hkdf s) (hp : c.peer ∈ s.setups) :
    ∃! i : ℕ, s.setups[i]? = some c.peer := by
  obtain ⟨i, hi⟩ := List.mem_iff_getElem?.1 hp
  exact ⟨i, hi, fun j hj => h.fresh.index_eq hj hi rfl rfl⟩

/-- **The channel is secure in both directions.**  Whatever bytes reach an end of a connection,
the frames it reads are the first ones its other end has sealed, in order and each once; and it
reads nothing at all unless there is exactly one other end, with the same PSK and nonces. -/
theorem secure_channel (A : Aead Key) (hkdf : List UInt8 → List UInt8 → List UInt8 → Key)
    (s : Channels Key) (hs : IdealTraffic A hkdf s) (c : KeySetup) (hc : c ∈ s.setups)
    (wire : List UInt8) (n : ℕ) :
    let fs := readFrames A n wire (Opener.new (c.key hkdf) c.peer.party.dir)
    fs.map Except.ok <+: (s.sealedBy hkdf c.peer).map Frame.decode ∧
      (fs ≠ [] → ∃! i : ℕ, s.setups[i]? = some c.peer) := by
  intro fs
  refine ⟨(readsOf_new s c).readFrames hs hc n wire, fun hne => ?_⟩
  cases n with
  | zero => exact absurd rfl hne
  | succ n =>
    simp only [fs, readFrames] at hne
    split at hne
    · exact absurd rfl hne
    · rename_i f r' o' hread
      exact hs.peer_unique ((readsOf_new s c).readFrame hs hc hread).1

/-- The client's first record. -/
def clientRecord : List UInt8 := u32ToBe 27 ++ (clientHello.nonce ++ clientHello.plaintext)

/-- The record is delivered twice: the daemon reads one `Hello`, and it has one client. -/
theorem secure_channel_replayed : ∃ s : Channels (List UInt8),
    readFrames (oneRecordAead clientHello) 2 (clientRecord ++ clientRecord)
        (Opener.new (knownOffer.setup.key concatKdf) dirClientToServer) = [.hello] ∧
      ∃! i : ℕ, s.setups[i]? = some knownOffer.setup.peer := by
  obtain ⟨s, -, hideal, hsetup⟩ := ideal_clientTraffic
  have hreads : readFrames (oneRecordAead clientHello) 2 (clientRecord ++ clientRecord)
      (Opener.new (knownOffer.setup.key concatKdf) dirClientToServer) = [.hello] := by decide
  refine ⟨s, hreads, ?_⟩
  refine (secure_channel (oneRecordAead clientHello) concatKdf s hideal knownOffer.setup hsetup
    (clientRecord ++ clientRecord) 2).2 ?_
  exact ne_of_eq_of_ne hreads (List.cons_ne_nil _ _)

end Reads

/-! ### The client and its daemon -/

section Client

variable {A : Aead Key} {hkdf : List UInt8 → List UInt8 → List UInt8 → Key} {psk : Psk}

/-- What an attempt that gets past the `Hello` exchange has read. -/
theorem helloExchange_eq_ok {offset : UInt64} {a : Attempt} {wire : List UInt8}
    {opener : Opener Key} (h : helloExchange A hkdf psk offset a = .ok (wire, opener)) :
    ∃ serverNonce serverTotal, a.clientRecv = .ok (serverNonce, serverTotal) ∧
      offset ≤ serverTotal ∧
      readFrame A a.wire (Opener.new (deriveKey hkdf psk a.clientNonce serverNonce)
        dirServerToClient) = (.ok .hello, wire, opener) := by
  unfold helloExchange at h
  split at h
  · cases h
  split at h
  · cases h
  split at h
  · cases h
  · cases h
  rename_i serverNonce serverTotal hrecv
  refine ⟨serverNonce, serverTotal, hrecv, ?_⟩
  split_ifs at h with hlt
  dsimp only at h
  split at h
  · cases h
  split at h
  · cases h
  rename_i f w o hread
  split_ifs at h with hf
  cases h
  subst hf
  exact ⟨UInt64.not_lt.1 hlt, hread⟩

variable {W : Type} [DecidableEq Key] {io : Stdout W} {s : Channels Key} {c : KeySetup}

variable (hkdf) in
/-- What the client's reader has read continues the `Hello`, and its opener goes on from there
unless the reader has returned. -/
structure ClientReader.Continues (s : Channels Key) (c : KeySetup) (k : ClientReader Key W) :
    Prop where
  reads : (Frame.hello :: k.reads).map Except.ok <+: (s.sealedBy hkdf c.peer).map Frame.decode
  opener : k.phase.isReturned = false → ReadsOf hkdf s c (.hello :: k.reads) k.opener

theorem ReaderPhase.isReturned_of_accepting {phase : ReaderPhase} {offset : UInt64}
    {data : List UInt8} (h : phase = .accepting offset data) : phase.isReturned = false := by
  rw [h]
  rfl

theorem ClientReader.Continues.step {k k' : ClientReader Key W} {e : ReaderEvent}
    (h : k.Continues hkdf s c) (hs : IdealTraffic A hkdf s) (hc : c ∈ s.setups)
    (hstep : readerStep A io k e = some k') : k'.Continues hkdf s c := by
  cases e with
  | writerReturns wo =>
    obtain ⟨pongs, stopped, rfl, -⟩ := readerStep_writer (Or.inr ⟨wo, rfl⟩) hstep
    exact ⟨h.reads, h.opener⟩
  | takePong =>
    obtain ⟨pongs, stopped, rfl, -⟩ := readerStep_writer (Or.inl rfl) hstep
    exact ⟨h.reads, h.opener⟩
  | select =>
    obtain ⟨hphase, ⟨-, rfl⟩ | ⟨-, f, wire, opener, hread, rfl⟩ | ⟨-, e, wire, opener, -, rfl⟩⟩ :=
      readerStep_select hstep
    · exact ⟨h.reads, nofun⟩
    · have hnext := ((h.opener (by rw [hphase]; rfl)).readFrame hs hc hread).2
      exact ⟨hnext.reads, fun _ => hnext⟩
    · exact ⟨h.reads, nofun⟩
  | accept =>
    obtain ⟨offset, data, hphase, ⟨output, -, rfl⟩ | ⟨e, output, -, rfl⟩⟩ :=
      readerStep_accept hstep
    · exact ⟨h.reads, fun _ => h.opener (ReaderPhase.isReturned_of_accepting hphase)⟩
    · exact ⟨h.reads, nofun⟩
  | pong =>
    obtain ⟨hphase, ⟨-, rfl⟩ | ⟨-, rfl⟩⟩ := readerStep_pong hstep
    · exact ⟨h.reads, nofun⟩
    · exact ⟨h.reads, fun _ => h.opener (by rw [hphase]; rfl)⟩

/-- **The client has found its daemon.**  A client past the `Hello` exchange talks to exactly one
daemon end, which holds the same PSK and has used these very nonces; and in every run of
`client_reader` on the connection, what the client has read is the first part of what that end has
sealed. -/
theorem connect_authenticated (A : Aead Key)
    (hkdf : List UInt8 → List UInt8 → List UInt8 → Key) (psk : Psk) (offset : UInt64)
    (a : Attempt) (wire : List UInt8) (opener : Opener Key)
    (hhello : helloExchange A hkdf psk offset a = .ok (wire, opener)) :
    ∃ serverNonce serverTotal, a.clientRecv = .ok (serverNonce, serverTotal) ∧
      offset ≤ serverTotal ∧
      ∀ s, IdealTraffic A hkdf s → ⟨.client, psk, a.clientNonce, serverNonce⟩ ∈ s.setups →
        (∃! i : ℕ, s.setups[i]? = some ⟨.daemon, psk, a.clientNonce, serverNonce⟩) ∧
        ∀ (W : Type) (io : Stdout W) (output : SessionOutput W) (es : List ReaderEvent)
          (k : ClientReader Key W),
          (readerSystem A io wire opener output).run (.new wire opener output) es = some k →
          (Frame.hello :: k.reads).map Except.ok <+:
            (s.sealedBy hkdf ⟨.daemon, psk, a.clientNonce, serverNonce⟩).map Frame.decode := by
  obtain ⟨serverNonce, serverTotal, hrecv, hle, hread⟩ := helloExchange_eq_ok hhello
  refine ⟨serverNonce, serverTotal, hrecv, hle, fun s hs hc => ?_⟩
  obtain ⟨hpeer, hreads⟩ := (readsOf_new s _).readFrame hs hc hread
  refine ⟨hs.peer_unique hpeer, fun W io output es k hrun => ?_⟩
  have hstart : (ClientReader.new wire opener output).Continues hkdf s
      ⟨.client, psk, a.clientNonce, serverNonce⟩ := ⟨hreads.reads, fun _ => hreads⟩
  exact (System.run_invariant (I := ClientReader.Continues hkdf s
    ⟨.client, psk, a.clientNonce, serverNonce⟩)
    (fun _ _ _ h hst => h.step hs hc hst) hstart hrun).reads

/-- The daemon's first encryption. -/
def daemonHello : Encryption (List UInt8) :=
  ⟨knownOffer.setup.key concatKdf, nonceFor dirServerToClient 0, Frame.hello.encode⟩

/-- An attempt on which the daemon greets the client. -/
def greetedAttempt : Attempt where
  connect := .ok ()
  clientNonce := knownOffer.hello.clientNonce
  clientSend := .ok ()
  clientRecv := .ok (knownOffer.serverNonce, 0)
  writeHello := .ok ()
  wire := u32ToBe 27 ++ (daemonHello.nonce ++ daemonHello.plaintext)
  size := none
  writeResize := .ok ()
  serving := []

/-- The key setups of both ends, and the daemon's first record. -/
def daemonTraffic : List ChannelEvent :=
  [.connect knownOffer.psk knownOffer.hello.clientNonce knownOffer.serverNonce,
    .accept 0 knownOffer.hello.clientNonce knownOffer.serverNonce,
    .sealRecord 1 Frame.hello.encode]

theorem ideal_daemonTraffic : ∃ s,
    (channelSystem (oneRecordAead daemonHello) concatKdf).run noChannels daemonTraffic = some s ∧
      IdealTraffic (oneRecordAead daemonHello) concatKdf s ∧
      ⟨.client, knownOffer.psk, knownOffer.hello.clientNonce, knownOffer.serverNonce⟩ ∈
        s.setups := by
  have hrun : (channelSystem (oneRecordAead daemonHello) concatKdf).run noChannels daemonTraffic =
    some _ := rfl
  refine ⟨_, hrun, ⟨System.reachable_of_run (s := noChannels) daemonTraffic ⟨rfl, rfl⟩ hrun,
    ⟨by decide, fun _ _ _ _ => concatKdf_injective⟩, ?_⟩, List.mem_cons_self⟩
  intro c _ nonce ct pt h
  simp only [oneRecordAead] at h
  split_ifs at h with hopen
  cases h
  rw [hopen.1, hopen.2.1]
  exact List.mem_singleton_self _

/-- The client has found the daemon that greets it. -/
theorem connect_authenticated_greeted : ∃ (s : Channels (List UInt8)) (opener : Opener _),
    helloExchange (oneRecordAead daemonHello) concatKdf knownOffer.psk 0 greetedAttempt =
        .ok ([], opener) ∧
      ∃! i : ℕ, s.setups[i]? = some knownOffer.setup := by
  obtain ⟨s, -, hideal, hsetup⟩ := ideal_daemonTraffic
  have hhello : helloExchange (oneRecordAead daemonHello) concatKdf knownOffer.psk 0
    greetedAttempt = .ok ([], _) := rfl
  obtain ⟨serverNonce, serverTotal, hrecv, -, h⟩ :=
    connect_authenticated (oneRecordAead daemonHello) concatKdf knownOffer.psk 0 greetedAttempt
      [] _ hhello
  cases hrecv
  exact ⟨s, _, hhello, (h s hideal hsetup).1⟩

end Client

end Thther
