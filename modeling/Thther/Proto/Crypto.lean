import Thther.Machine
import Mathlib.Data.List.Nodup

/-!
# AEAD for the TCP session channel (`proto/crypto.rs`)

The key of a connection is derived from the session PSK and the two handshake nonces; records are
sealed under it with a per-direction counter as the nonce.  The cipher and the key derivation
function are third-party code, so they are parameters: an `Aead Key` and an
`hkdf : List UInt8 → List UInt8 → List UInt8 → Key`.

`Sealer.seal` returns, besides its result and the next state, the call of `encrypt` it made (if
any), so that the encryptions of a run can be collected.
-/

namespace Thther

/-- A session PSK, `[u8; 32]`. -/
abbrev Psk := Vector UInt8 32

/-- A handshake nonce, `[u8; NONCE_LEN]`. -/
abbrev HandshakeNonce := Vector UInt8 32

/-- The direction bytes. -/
def dirClientToServer : UInt8 := 0
def dirServerToClient : UInt8 := 1

/-- An authenticated cipher over keys `Key`: `none` is the failure of the library call. -/
structure Aead (Key : Type) where
  encrypt : Key → List UInt8 → List UInt8 → Option (List UInt8)
  decrypt : Key → List UInt8 → List UInt8 → Option (List UInt8)

/-- One call `encrypt(key, nonce, plaintext)`. -/
structure Encryption (Key : Type) where
  key : Key
  nonce : List UInt8
  plaintext : List UInt8
  deriving DecidableEq

variable {Key : Type}

/-- The salt of the key derivation: the client nonce, then the server nonce. -/
def salt (clientNonce serverNonce : HandshakeNonce) : List UInt8 :=
  clientNonce.toList ++ serverNonce.toList

/-- Derive the per-connection symmetric key from the PSK and both nonces.  The arguments of
`hkdf` are the salt, the input key material and the info string. -/
def deriveKey (hkdf : List UInt8 → List UInt8 → List UInt8 → Key) (psk : Psk)
    (clientNonce serverNonce : HandshakeNonce) : Key :=
  hkdf (salt clientNonce serverNonce) psk.toList (ascii "thther-v1-session-key")

/-- The salt layout is injective, the nonces having a fixed length. -/
theorem salt_inj {c s c' s' : HandshakeNonce} (h : salt c s = salt c' s') : c = c' ∧ s = s' := by
  have hlen : c.toList.length = c'.toList.length := by simp
  obtain ⟨hc, hs⟩ := List.append_inj h hlen
  exact ⟨Vector.toList_inj.1 hc, Vector.toList_inj.1 hs⟩

/-- 12-byte nonce = `[dir][counter LE (8 bytes)][0,0,0]`. -/
def nonceFor (dir : UInt8) (counter : UInt64) : List UInt8 :=
  dir :: (u64ToLe counter ++ [0, 0, 0])

@[simp] theorem length_nonceFor (dir : UInt8) (counter : UInt64) :
    (nonceFor dir counter).length = 12 := by
  simp [nonceFor]

/-- The nonce determines the direction and the counter. -/
theorem nonceFor_inj {d d' : UInt8} {n n' : UInt64} (h : nonceFor d n = nonceFor d' n') :
    d = d' ∧ n = n' := by
  unfold nonceFor at h
  obtain ⟨hd, ht⟩ := List.cons.inj h
  obtain ⟨hn, -⟩ := List.append_inj ht (by simp)
  exact ⟨hd, u64ToLe_injective hn⟩

/-- Seals outgoing records with a monotonic per-direction counter. -/
structure Sealer (Key : Type) where
  key : Key
  dir : UInt8
  counter : UInt64

/-- `Sealer::new`. -/
def Sealer.new (key : Key) (dir : UInt8) : Sealer Key := { key, dir, counter := 0 }

/-- `Sealer::seal`: the result, the next state and the call of `encrypt` that was made. -/
def Sealer.seal (A : Aead Key) (s : Sealer Key) (plaintext : List UInt8) :
    Except String (List UInt8) × Sealer Key × Option (Encryption Key) :=
  let nonce := nonceFor s.dir s.counter
  match checkedAdd s.counter 1 with
  | none => (.error "nonce counter exhausted", s, none)
  | some counter =>
    let s' := { s with counter }
    match A.encrypt s.key nonce plaintext with
    | none => (.error "seal failed", s', some ⟨s.key, nonce, plaintext⟩)
    | some ct => (.ok ct, s', some ⟨s.key, nonce, plaintext⟩)

/-- Opens incoming records, checking the counter increases monotonically. -/
structure Opener (Key : Type) where
  key : Key
  dir : UInt8
  counter : UInt64

/-- `Opener::new`. -/
def Opener.new (key : Key) (dir : UInt8) : Opener Key := { key, dir, counter := 0 }

/-- `Opener::open`. -/
def Opener.open_ (A : Aead Key) (o : Opener Key) (ciphertext : List UInt8) :
    Except String (List UInt8) × Opener Key :=
  match A.decrypt o.key (nonceFor o.dir o.counter) ciphertext with
  | none => (.error "decrypt/auth failed", o)
  | some pt =>
    match checkedAdd o.counter 1 with
    | none => (.error "nonce counter exhausted", o)
    | some counter => (.ok pt, { o with counter })

/-! ### What one call of `seal` or `open` does -/

/-- Every outcome of `seal`: the counter is exhausted and nothing is encrypted, or exactly one
encryption is made under the nonce of the old counter, and the counter advances. -/
theorem Sealer.seal_cases (A : Aead Key) (s : Sealer Key) (pt : List UInt8) :
    (s.counter.toNat = 2 ^ 64 - 1 ∧
      s.seal A pt = (.error "nonce counter exhausted", s, none)) ∨
    (∃ counter res, counter.toNat = s.counter.toNat + 1 ∧
      s.seal A pt = (res, { s with counter }, some ⟨s.key, nonceFor s.dir s.counter, pt⟩) ∧
      ∀ ct, res = .ok ct ↔ A.encrypt s.key (nonceFor s.dir s.counter) pt = some ct) := by
  unfold Sealer.seal
  cases hc : checkedAdd s.counter 1 with
  | none =>
    have hlt := s.counter.toNat_lt
    rw [checkedAdd_eq_none] at hc
    exact .inl ⟨by omega, rfl⟩
  | some counter =>
    rw [checkedAdd_eq_some] at hc
    cases he : A.encrypt s.key (nonceFor s.dir s.counter) pt with
    | none => exact .inr ⟨counter, .error "seal failed", hc, by simp only [he], fun ct => by simp⟩
    | some ct => exact .inr ⟨counter, .ok ct, hc, by simp only [he], fun ct' => by simp⟩

/-- A record that opens was decrypted under the nonce of the old counter, which advances. -/
theorem Opener.open_eq_ok {A : Aead Key} {o o' : Opener Key} {ct pt : List UInt8}
    (h : o.open_ A ct = (.ok pt, o')) :
    A.decrypt o.key (nonceFor o.dir o.counter) ct = some pt ∧ o'.key = o.key ∧ o'.dir = o.dir ∧
      o'.counter.toNat = o.counter.toNat + 1 := by
  unfold Opener.open_ at h
  split at h
  · simp at h
  · rename_i p hd
    split at h
    · simp at h
    · rename_i counter hc
      simp only [Prod.mk.injEq, Except.ok.injEq] at h
      obtain ⟨rfl, rfl⟩ := h
      exact ⟨hd, rfl, rfl, checkedAdd_eq_some.1 hc⟩

/-- A failing `open` leaves the whole state, hence the counter, unchanged. -/
theorem Opener.open_eq_error {A : Aead Key} {o o' : Opener Key} {ct : List UInt8} {e : String}
    (h : o.open_ A ct = (.error e, o')) : o' = o := by
  unfold Opener.open_ at h
  split at h
  · simp at h; exact h.2.symm
  · split at h
    · simp at h; exact h.2.symm
    · simp at h

end Thther
