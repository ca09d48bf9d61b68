import Thther.Lib.System
import Thther.Proto.Crypto

/-!
# No (key, nonce) pair is ever reused

The key setup of `handle_tcp` and `connect_once` and every call of `Sealer::seal`, as a transition
system: any number of connection ends at the client and at the daemon, each with one sealer, over
any number of sessions whose PSKs rotate.  The peer's nonce of every end is arbitrary.
`encryptions` collects every call of `encrypt`, also those whose record is then lost.

`encryptions_nodup`: where the key derivation does not collide on the keys in use and each party's
own nonces are distinct, no two encryptions share the key and the nonce.
-/

namespace Thther

/-- The two ends of a connection. -/
inductive Party
  | client
  | daemon
  deriving DecidableEq

/-- The direction byte of a party's sealer. -/
def Party.dir : Party → UInt8
  | .client => dirClientToServer
  | .daemon => dirServerToClient

/-- The key setup of one end of a connection. -/
structure KeySetup where
  party : Party
  psk : Psk
  clientNonce : HandshakeNonce
  serverNonce : HandshakeNonce

/-- The nonce the end drew itself; the other one came from its peer. -/
def KeySetup.ownNonce (c : KeySetup) : HandshakeNonce :=
  match c.party with
  | .client => c.clientNonce
  | .daemon => c.serverNonce

section Keys

variable {Key : Type} (hkdf : List UInt8 → List UInt8 → List UInt8 → Key)

/-- The key of the connection. -/
def KeySetup.key (c : KeySetup) : Key := deriveKey hkdf c.psk c.clientNonce c.serverNonce

/-- The sealer the end starts with. -/
def KeySetup.sealer (c : KeySetup) : Sealer Key := Sealer.new (c.key hkdf) c.party.dir

/-- What is assumed of the randomness and of the key derivation, for the key setups of a run:
each party's own nonces are pairwise distinct, and the keys of two setups are equal only for the
same PSK and salt. -/
structure Fresh (setups : List KeySetup) : Prop where
  nonces : (setups.map fun c => (c.party, c.ownNonce)).Nodup
  derive : ∀ c ∈ setups, ∀ d ∈ setups, c.key hkdf = d.key hkdf →
    c.psk = d.psk ∧ salt c.clientNonce c.serverNonce = salt d.clientNonce d.serverNonce

variable {hkdf}

theorem Fresh.of_append {l l' : List KeySetup} (h : Fresh hkdf (l ++ l')) : Fresh hkdf l where
  nonces := by
    have hn := h.nonces
    rw [List.map_append] at hn
    exact hn.of_append_left
  derive c hc d hd := h.derive c (List.mem_append_left _ hc) d (List.mem_append_left _ hd)

/-- Two ends of one party with one key are the same end: their salts agree, so the party would
have drawn one nonce twice. -/
theorem Fresh.index_eq {l : List KeySetup} (h : Fresh hkdf l) {i j : ℕ} {c d : KeySetup}
    (hi : l[i]? = some c) (hj : l[j]? = some d) (hp : c.party = d.party)
    (hkey : c.key hkdf = d.key hkdf) : i = j := by
  obtain ⟨-, hsalt⟩ := h.derive c (List.mem_of_getElem? hi) d (List.mem_of_getElem? hj) hkey
  obtain ⟨hcn, hsn⟩ := salt_inj hsalt
  have hown : c.ownNonce = d.ownNonce := by
    simp only [KeySetup.ownNonce, hp, hcn, hsn]
  obtain ⟨hlt, -⟩ := List.getElem?_eq_some_iff.1 hi
  refine (List.getElem?_inj (by simpa using hlt) h.nonces).1 ?_
  rw [List.getElem?_map, List.getElem?_map, hi, hj]
  simp only [Option.map_some, hp, hown]

end Keys

/-- One end of one connection: its key setup and its sealer. -/
structure ChannelEnd (Key : Type) where
  setup : KeySetup
  sealer : Sealer Key

/-- The daemon's PSKs, all connection ends, and every call of `encrypt` made so far. -/
structure Channels (Key : Type) where
  psks : ℕ → Psk
  ends : List (ChannelEnd Key)
  encryptions : List (Encryption Key)

/-- A PSK rotation, a key setup at either party, or a call of `seal`. -/
inductive ChannelEvent
  | rotate (session : ℕ) (psk : Psk)
  /-- `connect_once` with any PSK; the server nonce is whatever the peer answered. -/
  | connect (psk : Psk) (clientNonce serverNonce : HandshakeNonce)
  /-- `handle_tcp` for a session; the client nonce is whatever the peer sent. -/
  | accept (session : ℕ) (clientNonce serverNonce : HandshakeNonce)
  | sealRecord (i : ℕ) (plaintext : List UInt8)

variable {Key : Type}

section Step

variable (A : Aead Key) (hkdf : List UInt8 → List UInt8 → List UInt8 → Key)

/-- Add an end with a fresh sealer. -/
def Channels.add (s : Channels Key) (c : KeySetup) : Channels Key :=
  { s with ends := s.ends ++ [⟨c, c.sealer hkdf⟩] }

/-- One event. -/
def channelStep (s : Channels Key) : ChannelEvent → Option (Channels Key)
  | .rotate i psk => some { s with psks := Function.update s.psks i psk }
  | .connect psk cn sn => some (s.add hkdf ⟨.client, psk, cn, sn⟩)
  | .accept i cn sn => some (s.add hkdf ⟨.daemon, s.psks i, cn, sn⟩)
  | .sealRecord i plaintext =>
    match s.ends[i]? with
    | none => none
    | some c =>
      let (_, sealer, call) := c.sealer.seal A plaintext
      some { s with
        ends := s.ends.set i { c with sealer }
        encryptions := s.encryptions ++ call.toList }

/-- The key-use system: no connection yet, any PSKs. -/
def channelSystem : System (Channels Key) ChannelEvent where
  init s := s.ends = [] ∧ s.encryptions = []
  step := channelStep A hkdf

end Step

/-- The key setups of all ends. -/
def Channels.setups (s : Channels Key) : List KeySetup := s.ends.map (·.setup)

/-- The invariant: sealers keep the key and direction of their setup; every encryption was made by
some end at a counter it has passed; and, under `Fresh`, no pair was used twice. -/
structure Channels.Inv (hkdf : List UInt8 → List UInt8 → List UInt8 → Key)
    (s : Channels Key) : Prop where
  keys : ∀ c ∈ s.ends, c.sealer.key = c.setup.key hkdf ∧ c.sealer.dir = c.setup.party.dir
  used : ∀ e ∈ s.encryptions, ∃ (i : ℕ) (c : ChannelEnd Key) (n : UInt64),
    s.ends[i]? = some c ∧ n.toNat < c.sealer.counter.toNat ∧
      e.key = c.setup.key hkdf ∧ e.nonce = nonceFor c.setup.party.dir n
  distinct : Fresh hkdf s.setups → (s.encryptions.map fun e => (e.key, e.nonce)).Nodup

/-- Replacing the sealer of an end leaves the key setups as they are. -/
theorem setups_set {s : Channels Key} {i : ℕ} {c : ChannelEnd Key} (hi : s.ends[i]? = some c)
    (sealer : Sealer Key) : (s.ends.set i { c with sealer }).map (·.setup) = s.setups := by
  obtain ⟨hlt, -⟩ := List.getElem?_eq_some_iff.1 hi
  apply List.ext_getElem?
  intro j
  rw [Channels.setups, List.getElem?_map, List.getElem?_map]
  by_cases hij : i = j
  · subst hij
    rw [List.getElem?_set_self hlt, hi]
    rfl
  · rw [List.getElem?_set_ne hij]

theorem Party.dir_injective : Function.Injective Party.dir := by
  intro p q h
  cases p <;> cases q <;> first | rfl | exact absurd h (by decide)

theorem Channels.Inv.add {hkdf : List UInt8 → List UInt8 → List UInt8 → Key} {s : Channels Key}
    (h : s.Inv hkdf) (c : KeySetup) : (s.add hkdf c).Inv hkdf where
  keys := by
    intro d hd
    rcases List.mem_append.1 hd with hd | hd
    · exact h.keys d hd
    · rw [List.mem_singleton.1 hd]
      exact ⟨rfl, rfl⟩
  used := by
    intro e he
    obtain ⟨i, d, n, hi, hrest⟩ := h.used e he
    refine ⟨i, d, n, ?_, hrest⟩
    obtain ⟨hlt, -⟩ := List.getElem?_eq_some_iff.1 hi
    exact (List.getElem?_append_left hlt).trans hi
  distinct := by
    intro hf
    rw [Channels.setups, Channels.add, List.map_append] at hf
    exact h.distinct hf.of_append

/-- The key step: a new encryption uses a pair no earlier one has used. -/
theorem Channels.Inv.pair_fresh {hkdf : List UInt8 → List UInt8 → List UInt8 → Key}
    {s : Channels Key} (h : s.Inv hkdf) (hf : Fresh hkdf s.setups) {i : ℕ} {c : ChannelEnd Key}
    (hi : s.ends[i]? = some c) :
    (c.setup.key hkdf, nonceFor c.setup.party.dir c.sealer.counter) ∉
      s.encryptions.map fun e => (e.key, e.nonce) := by
  intro hmem
  obtain ⟨e, he, hpair⟩ := List.mem_map.1 hmem
  obtain ⟨j, d, n, hj, hlt, hkey, hnonce⟩ := h.used e he
  rw [Prod.mk.injEq, hkey, hnonce] at hpair
  obtain ⟨hk, hn⟩ := hpair
  obtain ⟨hdir, hcount⟩ := nonceFor_inj hn
  have hsetup : ∀ {l : ℕ} {x : ChannelEnd Key}, s.ends[l]? = some x →
      s.setups[l]? = some x.setup := fun hl => by rw [Channels.setups, List.getElem?_map, hl]; rfl
  have hij : j = i := hf.index_eq (hsetup hj) (hsetup hi) (Party.dir_injective hdir) hk
  subst hij
  rw [hi, Option.some.injEq] at hj
  subst hj
  rw [hcount] at hlt
  exact Nat.lt_irrefl _ hlt

theorem Channels.Inv.seal {A : Aead Key} {hkdf : List UInt8 → List UInt8 → List UInt8 → Key}
    {s s' : Channels Key} {i : ℕ} {pt : List UInt8} (h : s.Inv hkdf)
    (hs : channelStep A hkdf s (.sealRecord i pt) = some s') : s'.Inv hkdf := by
  unfold channelStep at hs
  cases hi : s.ends[i]? with
  | none => simp [hi] at hs
  | some c =>
    obtain ⟨hlt, hc⟩ := List.getElem?_eq_some_iff.1 hi
    obtain ⟨hkey, hdir⟩ := h.keys c (List.mem_of_getElem? hi)
    rcases c.sealer.seal_cases A pt with ⟨-, hseal⟩ | ⟨counter, res, hcount, hseal, -⟩
    · -- an exhausted counter: nothing is encrypted and the sealer is unchanged
      have hsame : s.ends.set i c = s.ends := by rw [← hc]; exact List.set_getElem_self hlt
      simp only [hi, hseal, Option.toList_none, List.append_nil, hsame] at hs
      cases hs
      exact h
    · simp only [hi, hseal, Option.toList_some] at hs
      cases hs
      have hsetups := setups_set hi { c.sealer with counter }
      refine ⟨?_, ?_, ?_⟩
      · intro d hd
        rcases List.mem_or_eq_of_mem_set hd with hd | rfl
        · exact h.keys d hd
        · exact ⟨hkey, hdir⟩
      · intro e he
        rcases List.mem_append.1 he with he | he
        · obtain ⟨j, d, n, hj, hlt', hk, hn⟩ := h.used e he
          by_cases hij : i = j
          · subst hij
            rw [hi, Option.some.injEq] at hj
            subst hj
            exact ⟨i, _, n, List.getElem?_set_self hlt, by dsimp only; omega, hk, hn⟩
          · exact ⟨j, d, n, by rw [List.getElem?_set_ne hij]; exact hj, hlt', hk, hn⟩
        · rw [List.mem_singleton.1 he]
          exact ⟨i, _, c.sealer.counter, List.getElem?_set_self hlt, by dsimp only; omega,
            hkey, by rw [hdir]⟩
      · intro hf
        have hf' : Fresh hkdf s.setups := by rw [← hsetups]; exact hf
        have hfresh := h.pair_fresh hf' hi
        rw [List.map_append, List.nodup_append]
        refine ⟨h.distinct hf', List.nodup_singleton _, ?_⟩
        rintro p hp q hq rfl
        rw [List.map_singleton, List.mem_singleton, hkey, hdir] at hq
        exact hfresh (hq ▸ hp)

theorem channels_inv {A : Aead Key} {hkdf : List UInt8 → List UInt8 → List UInt8 → Key}
    {s : Channels Key} (hs : (channelSystem A hkdf).Reachable s) : s.Inv hkdf := by
  refine System.invariant (fun s hi => ?_) (fun s e s' h hst => ?_) hs
  · obtain ⟨he, hl⟩ := hi
    refine ⟨?_, ?_, ?_⟩
    · rw [he]; intro c hc; cases hc
    · rw [hl]; intro e he; cases he
    · rw [hl]; intro _; exact List.nodup_nil
  · cases e with
    | rotate i psk => cases hst; exact ⟨h.keys, h.used, h.distinct⟩
    | connect psk cn sn => cases hst; exact h.add _
    | accept i cn sn => cases hst; exact h.add _
    | sealRecord i pt => exact h.seal hst

/-- **No (key, nonce) pair is ever reused**, over every run of key setups, rotations and seals;
and a sealer whose counter is exhausted fails before it encrypts anything. -/
theorem encryptions_nodup (A : Aead Key) (hkdf : List UInt8 → List UInt8 → List UInt8 → Key)
    (s : Channels Key) (hs : (channelSystem A hkdf).Reachable s) (hf : Fresh hkdf s.setups) :
    (s.encryptions.map fun e => (e.key, e.nonce)).Nodup ∧
      ∀ (t : Sealer Key) (pt : List UInt8), t.counter.toNat = 2 ^ 64 - 1 →
        t.seal A pt = (.error "nonce counter exhausted", t, none) := by
  refine ⟨(channels_inv hs).distinct hf, fun t pt ht => ?_⟩
  rcases t.seal_cases A pt with ⟨-, h⟩ | ⟨counter, -, hc, -⟩
  · exact h
  · have := counter.toNat_lt
    omega

/-- A connection accepted by the daemon, a rotation, and the client's old hello replayed to the
daemon; all three ends seal. -/
def replayedHello : List ChannelEvent :=
  let nonce (b : UInt8) : HandshakeNonce := Vector.replicate 32 b
  [.connect (nonce 9) (nonce 1) (nonce 2), .accept 0 (nonce 1) (nonce 2), .sealRecord 0 [5],
    .sealRecord 1 [5], .rotate 0 (nonce 8), .accept 0 (nonce 1) (nonce 3), .sealRecord 2 [5]]

/-- A key derivation that keeps its arguments. -/
def concatKdf (salt ikm _info : List UInt8) : List UInt8 := ikm ++ salt

theorem concatKdf_injective {c d : KeySetup} (h : c.key concatKdf = d.key concatKdf) :
    c.psk = d.psk ∧ salt c.clientNonce c.serverNonce = salt d.clientNonce d.serverNonce := by
  obtain ⟨hpsk, hsalt⟩ := List.append_inj h (by simp)
  exact ⟨Vector.toList_inj.1 hpsk, hsalt⟩

/-- A cipher that shows its nonce and plaintext. -/
def clearAead : Aead (List UInt8) where
  encrypt _ n p := some (n ++ p)
  decrypt _ n ct := if ct.take 12 = n then some (ct.drop 12) else none

/-- No connection yet. -/
def noChannels : Channels (List UInt8) := ⟨fun _ => Vector.replicate 32 9, [], []⟩

/-- The replay makes three encryptions, with distinct pairs. -/
theorem encryptions_nodup_replayedHello :
    ∃ s, (channelSystem clearAead concatKdf).run noChannels replayedHello = some s ∧
      s.encryptions.length = 3 ∧ (s.encryptions.map fun e => (e.key, e.nonce)).Nodup :=
  ⟨_, rfl, rfl, (encryptions_nodup clearAead concatKdf _
    (System.reachable_of_run (s := noChannels) replayedHello ⟨rfl, rfl⟩ rfl)
    ⟨by decide, fun _ _ _ _ => concatKdf_injective⟩).1⟩

end Thther
