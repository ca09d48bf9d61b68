import Thther.Proto.Control
import Thther.Proto.Frame

/-!
# The plaintext handshake (`proto/handshake.rs`)

What one end writes is a list of bytes; what the other end reads is a `Recv`, which takes the
bytes it consumes off the front of the stream and leaves the rest.

* `readExactly_eq_ok`, `Recv.bind_eq_ok`: what a read that succeeds has consumed;
* `serverRecv_eq_ok`: `server_recv` accepts exactly what `client_send` writes;
* `clientRecv_eq_ok`: `client_recv` accepts exactly what `server_send_ok` writes.
-/

namespace Thther

/-! ### Strings -/

/-- `str::as_bytes`. -/
def asBytes (s : String) : List UInt8 := s.toByteArray.data.toList

/-- `String::from_utf8`. -/
def stringFromUtf8 (bs : List UInt8) : Option String := String.fromUTF8? ⟨bs.toArray⟩

@[simp] theorem stringFromUtf8_asBytes (s : String) : stringFromUtf8 (asBytes s) = some s := by
  have hbytes : (⟨(asBytes s).toArray⟩ : ByteArray) = s.toByteArray := by
    rw [asBytes, Array.toArray_toList]
  unfold stringFromUtf8 String.fromUTF8?
  rw [hbytes, dif_pos s.isValidUTF8]
  rfl

theorem asBytes_of_stringFromUtf8 {bs : List UInt8} {s : String}
    (h : stringFromUtf8 bs = some s) : asBytes s = bs := by
  unfold stringFromUtf8 String.fromUTF8? at h
  split_ifs at h
  cases h
  exact List.toList_toArray

/-! ### Reading from the stream -/

/-- An error of the handshake: a `Rejection`, or any other. -/
abbrev HandshakeError : Type := String ⊕ Rejection

/-- A reader of a byte stream. -/
abbrev Recv : Type → Type := StateT (List UInt8) (Except HandshakeError)

/-- `read_exact` into a buffer of `n` bytes. -/
def readExactly (n : ℕ) : Recv (List UInt8) := fun r =>
  match readExact n r with
  | none => .error (.inl "early eof")
  | some bs => .ok bs

/-- `bail!`, and an error passed on by `?`. -/
def Recv.fail {α : Type} (e : HandshakeError) : Recv α := fun _ => .error e

/-- `read_exact` into a nonce. -/
def readNonce : Recv HandshakeNonce := fun r =>
  if h : 32 ≤ r.length then
    .ok (⟨(r.take 32).toArray, by rw [List.size_toArray, List.length_take, Nat.min_eq_left h]⟩,
      r.drop 32)
  else .error (.inl "early eof")

section Recv

variable {α β : Type} {x : Recv α} {f : α → Recv β} {r rest : List UInt8}

/-- A sequence succeeds when both parts do, the second on what the first has left. -/
theorem Recv.bind_eq_ok {b : β} : (x >>= f) r = .ok (b, rest) ↔
    ∃ a r₁, x r = .ok (a, r₁) ∧ f a r₁ = .ok (b, rest) := by
  show (x r).bind (fun p => f p.1 p.2) = _ ↔ _
  cases hx : x r with
  | error e =>
    constructor
    · intro h
      cases h
    · rintro ⟨a, r₁, h, -⟩
      cases h
  | ok p =>
    obtain ⟨a, r₁⟩ := p
    constructor
    · intro h
      exact ⟨a, r₁, rfl, h⟩
    · rintro ⟨a', r₁', h, hf⟩
      cases h
      exact hf

theorem Recv.pure_eq_ok {a b : α} : (pure a : Recv α) r = .ok (b, rest) ↔ b = a ∧ rest = r := by
  show Except.ok (a, r) = Except.ok (b, rest) ↔ _
  rw [Except.ok.injEq, Prod.mk.injEq]
  exact ⟨fun h => ⟨h.1.symm, h.2.symm⟩, fun h => ⟨h.1.symm, h.2.symm⟩⟩

/-- Behind a check. -/
theorem Recv.check_eq_ok {c : Prop} [Decidable c] {e : HandshakeError} {a : α} :
    (if c then Recv.fail e else x) r = .ok (a, rest) ↔ ¬ c ∧ x r = .ok (a, rest) := by
  split_ifs with hc
  · constructor
    · intro h
      cases h
    · rintro ⟨hnot, -⟩
      exact absurd hc hnot
  · exact ⟨fun h => ⟨hc, h⟩, fun h => h.2⟩

/-- A sequence fails in one of its parts. -/
theorem Recv.bind_eq_error {e : HandshakeError} : (x >>= f) r = .error e ↔
    x r = .error e ∨ ∃ a r₁, x r = .ok (a, r₁) ∧ f a r₁ = .error e := by
  show (x r).bind (fun p => f p.1 p.2) = _ ↔ _
  cases hx : x r with
  | error e' =>
    constructor
    · intro h
      cases h
      exact Or.inl rfl
    · rintro (h | ⟨a, r₁, h, -⟩)
      · cases h
        rfl
      · cases h
  | ok p =>
    obtain ⟨a, r₁⟩ := p
    constructor
    · intro h
      exact Or.inr ⟨a, r₁, rfl, h⟩
    · rintro (h | ⟨a', r₁', h, hf⟩)
      · cases h
      · cases h
        exact hf

theorem Recv.check_eq_error {c : Prop} [Decidable c] {e e' : HandshakeError} :
    (if c then Recv.fail e else x) r = .error e' ↔ c ∧ e = e' ∨ ¬ c ∧ x r = .error e' := by
  by_cases hc : c
  · rw [if_pos hc]
    constructor
    · intro h
      cases h
      exact Or.inl ⟨hc, rfl⟩
    · rintro (⟨-, rfl⟩ | ⟨hnot, -⟩)
      · rfl
      · exact absurd hc hnot
  · rw [if_neg hc]
    constructor
    · intro h
      exact Or.inr ⟨hc, h⟩
    · rintro (⟨hyes, -⟩ | ⟨-, h⟩)
      · exact absurd hyes hc
      · exact h

/-- The end of the stream is no `Rejection`. -/
theorem readExactly_ne_rejection {n : ℕ} {reason : Rejection} :
    readExactly n r ≠ .error (.inr reason) := by
  unfold readExactly
  split <;> exact nofun

theorem readNonce_ne_rejection {reason : Rejection} : readNonce r ≠ .error (.inr reason) := by
  unfold readNonce
  split <;> exact nofun

theorem readExactly_eq_ok {n : ℕ} {bs : List UInt8} :
    readExactly n r = .ok (bs, rest) ↔ bs.length = n ∧ r = bs ++ rest := by
  unfold readExactly readExact
  by_cases hn : n ≤ r.length
  · rw [if_pos hn]
    simp only [Except.ok.injEq, Prod.mk.injEq]
    constructor
    · rintro ⟨rfl, rfl⟩
      exact ⟨by rw [List.length_take, Nat.min_eq_left hn], (List.take_append_drop n r).symm⟩
    · rintro ⟨rfl, rfl⟩
      exact ⟨List.take_left, List.drop_left⟩
  · rw [if_neg hn]
    constructor
    · intro h
      cases h
    · rintro ⟨rfl, rfl⟩
      rw [List.length_append] at hn
      omega

theorem readNonce_eq_ok {nonce : HandshakeNonce} :
    readNonce r = .ok (nonce, rest) ↔ r = nonce.toList ++ rest := by
  unfold readNonce
  split_ifs with hn
  · rw [Except.ok.injEq, Prod.mk.injEq]
    constructor
    · rintro ⟨rfl, rfl⟩
      exact (List.take_append_drop 32 r).symm
    · rintro rfl
      have hlen : nonce.toList.length = 32 := by simp
      refine ⟨?_, List.drop_left' hlen⟩
      rw [← Vector.toList_inj]
      exact List.take_left' hlen
  · constructor
    · intro h
      cases h
    · rintro rfl
      exact absurd (by simp) hn

end Recv

/-! ### The two messages -/

/-- `MAGIC`. -/
def Handshake.magic : List UInt8 := ascii "THT1"

structure ClientHello where
  sessionId : String
  clientNonce : HandshakeNonce
  offset : UInt64
  deriving DecidableEq

/-- `client_send`: the bytes handed to the writer, or the error before anything is written. -/
def clientSend (sessionId : String) (clientNonce : HandshakeNonce) (offset : UInt64) :
    Except String (List UInt8) :=
  if (asBytes sessionId).length ≠ Handshake.sessionIdLen then
    .error s!"session id must be {Handshake.sessionIdLen} chars"
  else
    .ok (Handshake.magic ++ [Handshake.version] ++ asBytes sessionId ++ clientNonce.toList ++
      u64ToBe offset)

/-- `server_recv`. -/
def serverRecv : Recv ClientHello := do
  let magic ← readExactly 4
  if magic ≠ Handshake.magic then Recv.fail (.inl "bad magic")
  else
    let ver ← readExactly 1
    if ver ≠ [Handshake.version] then Recv.fail (.inr .versionMismatch)
    else
      let id ← readExactly Handshake.sessionIdLen
      match stringFromUtf8 id with
      | none => Recv.fail (.inl "invalid utf-8 sequence")
      | some sessionId =>
        let clientNonce ← readNonce
        let offset ← readExactly 8
        pure { sessionId, clientNonce, offset := u64FromBe offset }

/-- `server_send_ok`: the bytes handed to the writer. -/
def serverSendOk (serverNonce : HandshakeNonce) (serverTotal : UInt64) : List UInt8 :=
  Handshake.statusOk :: (serverNonce.toList ++ u64ToBe serverTotal)

/-- `server_send_err`: the bytes handed to the writer. -/
def serverSendErr (status : UInt8) : List UInt8 := [status]

/-- `client_recv`. -/
def clientRecv : Recv (HandshakeNonce × UInt64) := do
  let buf ← readExactly 1
  let status := buf.headD 0
  if status = Handshake.statusOk then
    let nonce ← readNonce
    let total ← readExactly 8
    pure (nonce, u64FromBe total)
  else if status = Handshake.statusNoSession then Recv.fail (.inr .noSession)
  else if status = Handshake.statusVersionMismatch then Recv.fail (.inr .versionMismatch)
  else if status = Handshake.statusBadOffset then Recv.fail (.inr .badOffset)
  else Recv.fail (.inl s!"server: unknown status {status}")

/-! ### The hello -/

section Hello

variable {id : String} {nonce : HandshakeNonce} {offset : UInt64} {bytes r rest : List UInt8}

theorem clientSend_eq_ok : clientSend id nonce offset = .ok bytes ↔
    (asBytes id).length = Handshake.sessionIdLen ∧
      bytes = Handshake.magic ++ [Handshake.version] ++ asBytes id ++ nonce.toList ++
        u64ToBe offset := by
  unfold clientSend
  by_cases hlen : (asBytes id).length = Handshake.sessionIdLen
  · rw [if_neg (not_not.2 hlen), Except.ok.injEq]
    exact ⟨fun h => ⟨hlen, h.symm⟩, fun h => h.2.symm⟩
  · rw [if_pos hlen]
    constructor
    · intro h
      cases h
    · rintro ⟨hlen', -⟩
      exact absurd hlen' hlen

/-- Every hello has the same length. -/
theorem length_clientSend (h : clientSend id nonce offset = .ok bytes) :
    bytes.length = 4 + 1 + Handshake.sessionIdLen + 32 + 8 := by
  obtain ⟨hlen, rfl⟩ := clientSend_eq_ok.1 h
  simp only [List.length_append, hlen, length_u64ToBe, Vector.length_toList]
  rfl

/-- **`server_recv` accepts exactly what `client_send` writes**, and consumes exactly that. -/
theorem serverRecv_eq_ok {hello : ClientHello} : serverRecv r = .ok (hello, rest) ↔
    ∃ bytes, clientSend hello.sessionId hello.clientNonce hello.offset = .ok bytes ∧
      r = bytes ++ rest := by
  unfold serverRecv
  constructor
  · intro h
    obtain ⟨magic, r₁, hmagic, h₁⟩ := Recv.bind_eq_ok.1 h
    obtain ⟨hm, h₁⟩ := Recv.check_eq_ok.1 h₁
    obtain ⟨ver, r₂, hver, h₂⟩ := Recv.bind_eq_ok.1 h₁
    obtain ⟨hv, h₂⟩ := Recv.check_eq_ok.1 h₂
    obtain ⟨idBytes, r₃, hid, h₃⟩ := Recv.bind_eq_ok.1 h₂
    rw [not_not] at hm hv
    obtain ⟨-, rfl⟩ := readExactly_eq_ok.1 hmagic
    obtain ⟨-, rfl⟩ := readExactly_eq_ok.1 hver
    obtain ⟨hlen, rfl⟩ := readExactly_eq_ok.1 hid
    cases hs : stringFromUtf8 idBytes with
    | none =>
      rw [hs] at h₃
      cases h₃
    | some sessionId =>
      rw [hs] at h₃
      obtain ⟨clientNonce, r₄, hnonce, h₄⟩ := Recv.bind_eq_ok.1 h₃
      obtain ⟨offsetBytes, r₅, hoffset, h₅⟩ := Recv.bind_eq_ok.1 h₄
      rw [readNonce_eq_ok] at hnonce
      obtain ⟨hlen', rfl⟩ := readExactly_eq_ok.1 hoffset
      obtain ⟨rfl, rfl⟩ := Recv.pure_eq_ok.1 h₅
      refine ⟨_, clientSend_eq_ok.2 ⟨?_, rfl⟩, ?_⟩
      · rw [asBytes_of_stringFromUtf8 hs, hlen]
      · dsimp only
        rw [asBytes_of_stringFromUtf8 hs, u64ToBe_fromBe hlen', hm, hv, hnonce]
        simp only [List.append_assoc]
  · rintro ⟨bytes, hsend, rfl⟩
    obtain ⟨hlen, rfl⟩ := clientSend_eq_ok.1 hsend
    simp only [List.append_assoc]
    refine Recv.bind_eq_ok.2 ⟨Handshake.magic, _, readExactly_eq_ok.2 ⟨rfl, rfl⟩, ?_⟩
    refine Recv.check_eq_ok.2 ⟨not_not.2 rfl, ?_⟩
    refine Recv.bind_eq_ok.2 ⟨[Handshake.version], _, readExactly_eq_ok.2 ⟨rfl, rfl⟩, ?_⟩
    refine Recv.check_eq_ok.2 ⟨not_not.2 rfl, ?_⟩
    refine Recv.bind_eq_ok.2 ⟨asBytes hello.sessionId, _, readExactly_eq_ok.2 ⟨hlen, rfl⟩, ?_⟩
    rw [stringFromUtf8_asBytes]
    refine Recv.bind_eq_ok.2 ⟨hello.clientNonce, _, readNonce_eq_ok.2 rfl, ?_⟩
    refine Recv.bind_eq_ok.2
      ⟨u64ToBe hello.offset, rest, readExactly_eq_ok.2 ⟨length_u64ToBe _, rfl⟩, ?_⟩
    rw [u64FromBe_toBe]
    rfl

/-- Any other outcome of a read is an error. -/
theorem Recv.error_of_ne_ok {α : Type} {x : Recv α} (h : ∀ a rest, x r ≠ .ok (a, rest)) :
    ∃ e, x r = .error e := by
  cases hx : x r with
  | error e => exact ⟨e, rfl⟩
  | ok p => exact absurd hx (h p.1 p.2)

/-- A hello cut short is not accepted. -/
theorem serverRecv_cut (h : clientSend id nonce offset = .ok bytes) {cut : List UInt8}
    (hcut : cut <+: bytes) (hne : cut ≠ bytes) : ∃ e, serverRecv cut = .error e := by
  apply Recv.error_of_ne_ok
  intro hello rest hok
  obtain ⟨bytes', hsend, rfl⟩ := serverRecv_eq_ok.1 hok
  have hlen := length_clientSend h
  have hlen' := length_clientSend hsend
  have hle := hcut.length_le
  rw [List.length_append] at hle
  exact hne (hcut.eq_of_length (by rw [List.length_append]; omega))

/-- The one rejection of `server_recv`. -/
theorem serverRecv_rejection {reason : Rejection} (h : serverRecv r = .error (.inr reason)) :
    reason = .versionMismatch := by
  unfold serverRecv at h
  rcases Recv.bind_eq_error.1 h with hmagic | ⟨magic, r₁, -, h₁⟩
  · exact absurd hmagic readExactly_ne_rejection
  rcases Recv.check_eq_error.1 h₁ with ⟨-, heq⟩ | ⟨-, h₁⟩
  · cases heq
  rcases Recv.bind_eq_error.1 h₁ with hver | ⟨ver, r₂, -, h₂⟩
  · exact absurd hver readExactly_ne_rejection
  rcases Recv.check_eq_error.1 h₂ with ⟨-, heq⟩ | ⟨-, h₂⟩
  · cases heq
    rfl
  rcases Recv.bind_eq_error.1 h₂ with hid | ⟨idBytes, r₃, -, h₃⟩
  · exact absurd hid readExactly_ne_rejection
  cases hs : stringFromUtf8 idBytes with
  | none =>
    rw [hs] at h₃
    cases h₃
  | some sessionId =>
    rw [hs] at h₃
    rcases Recv.bind_eq_error.1 h₃ with hnonce | ⟨clientNonce, r₄, -, h₄⟩
    · exact absurd hnonce readNonce_ne_rejection
    rcases Recv.bind_eq_error.1 h₄ with hoffset | ⟨offsetBytes, r₅, -, h₅⟩
    · exact absurd hoffset readExactly_ne_rejection
    cases h₅

end Hello

/-! ### The answer -/

section Answer

variable {nonce : HandshakeNonce} {total : UInt64} {r rest : List UInt8}

/-- No status but `STATUS_OK` is a success. -/
theorem clientRecv_of_ne_ok {status : UInt8} (h : status ≠ Handshake.statusOk) :
    ∃ e, clientRecv (status :: r) = .error e ∧
      (status = Handshake.statusNoSession → e = .inr .noSession) ∧
      (status = Handshake.statusVersionMismatch → e = .inr .versionMismatch) ∧
      (status = Handshake.statusBadOffset → e = .inr .badOffset) := by
  by_cases hsession : status = Handshake.statusNoSession
  · subst hsession
    exact ⟨.inr .noSession, rfl, fun _ => rfl, nofun, nofun⟩
  by_cases hversion : status = Handshake.statusVersionMismatch
  · subst hversion
    exact ⟨.inr .versionMismatch, rfl, nofun, fun _ => rfl, nofun⟩
  by_cases hoffset : status = Handshake.statusBadOffset
  · subst hoffset
    exact ⟨.inr .badOffset, rfl, nofun, nofun, fun _ => rfl⟩
  · refine ⟨.inl s!"server: unknown status {status}", ?_, fun heq => absurd heq hsession,
      fun heq => absurd heq hversion, fun heq => absurd heq hoffset⟩
    have hbuf : (List.take 1 (status :: r)).headD 0 = status := rfl
    show (if (List.take 1 (status :: r)).headD 0 = Handshake.statusOk then _ else _ :
      Recv (HandshakeNonce × UInt64)) r = _
    rw [hbuf, if_neg h, if_neg hsession, if_neg hversion, if_neg hoffset]
    rfl

/-- **`client_recv` accepts exactly what `server_send_ok` writes**, and consumes exactly that. -/
theorem clientRecv_eq_ok : clientRecv r = .ok ((nonce, total), rest) ↔
    r = serverSendOk nonce total ++ rest := by
  unfold clientRecv
  constructor
  · intro h
    obtain ⟨buf, r₁, hbuf, h₁⟩ := Recv.bind_eq_ok.1 h
    obtain ⟨hlen, rfl⟩ := readExactly_eq_ok.1 hbuf
    obtain ⟨status, rfl⟩ := List.length_eq_one_iff.1 hlen
    by_cases hok : status = Handshake.statusOk
    · subst hok
      obtain ⟨nonce', r₂, hnonce, h₂⟩ := Recv.bind_eq_ok.1 h₁
      obtain ⟨totalBytes, r₃, htotal, h₃⟩ := Recv.bind_eq_ok.1 h₂
      rw [readNonce_eq_ok] at hnonce
      obtain ⟨hlen', rfl⟩ := readExactly_eq_ok.1 htotal
      obtain ⟨heq, rfl⟩ := Recv.pure_eq_ok.1 h₃
      cases heq
      rw [serverSendOk, u64ToBe_fromBe hlen', hnonce]
      simp only [List.append_assoc, List.cons_append, List.nil_append]
    · obtain ⟨e, he, -⟩ := clientRecv_of_ne_ok (r := r₁) hok
      exact absurd (he.symm.trans h) nofun
  · rintro rfl
    unfold serverSendOk
    simp only [List.cons_append, List.append_assoc]
    refine Recv.bind_eq_ok.2 ⟨[Handshake.statusOk], _, readExactly_eq_ok.2 ⟨rfl, rfl⟩, ?_⟩
    refine Recv.bind_eq_ok.2 ⟨nonce, _, readNonce_eq_ok.2 rfl, ?_⟩
    refine Recv.bind_eq_ok.2 ⟨u64ToBe total, rest, readExactly_eq_ok.2 ⟨length_u64ToBe _, rfl⟩, ?_⟩
    rw [u64FromBe_toBe]
    rfl

/-- An answer cut short is not accepted. -/
theorem clientRecv_cut {cut : List UInt8} (hcut : cut <+: serverSendOk nonce total)
    (hne : cut ≠ serverSendOk nonce total) : ∃ e, clientRecv cut = .error e := by
  apply Recv.error_of_ne_ok
  rintro ⟨nonce', total'⟩ rest hok
  rw [clientRecv_eq_ok] at hok
  have hlen : ∀ (n : HandshakeNonce) (t : UInt64), (serverSendOk n t).length = 41 := by
    intro n t
    simp [serverSendOk]
  have hle := hcut.length_le
  rw [hok, List.length_append, hlen, hlen] at hle
  refine hne (hcut.eq_of_length ?_)
  rw [hok, List.length_append, hlen, hlen]
  omega

end Answer

end Thther
