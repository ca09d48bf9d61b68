import Thther.Proto.Crypto

/-!
# Framing over the encrypted session channel (`proto/frame.rs`)

Wire record: `[u32 BE ciphertext_len][ciphertext]`.  The ciphertext decrypts to a plaintext frame
`[u8 type][payload]`.  A byte stream is a list of bytes; `readExact` on a stream that ends too
early is the end-of-file error.

* `Frame.encode`, `Frame.decode`: the plaintext codec;
* `writeFrame`, `readFrame`: one record through a `Sealer` or an `Opener`;
* `readFrames`: successive calls of `readFrame`, stopped by the first error.
-/

namespace Thther

/-! ### Frame types -/

@[match_pattern] def tData : UInt8 := 0
@[match_pattern] def tResize : UInt8 := 1
@[match_pattern] def tPing : UInt8 := 2
@[match_pattern] def tPong : UInt8 := 3
@[match_pattern] def tAck : UInt8 := 4
@[match_pattern] def tHello : UInt8 := 5
@[match_pattern] def tEnded : UInt8 := 6
@[match_pattern] def tOutput : UInt8 := 7

/-- `MAX_OUTPUT_BYTES`. -/
def maxOutputBytes : ℕ := 64 * 1024

/-- Magic carried in the first encrypted `Hello` frame. -/
def helloMagic : List UInt8 := ascii "THTHER-HELLO-1"

/-- `MAX_RECORD`: records larger than this are rejected to bound memory. -/
def maxRecord : ℕ := 4 * 1024 * 1024

/-- A plaintext frame. -/
inductive Frame
  /-- Client-to-server terminal input. -/
  | data (b : List UInt8)
  /-- Server-to-client output, indexed by its absolute starting byte offset. -/
  | output (offset : UInt64) (data : List UInt8)
  | resize (cols rows : UInt16)
  | ping
  | pong
  /-- Absolute output position committed by the client. -/
  | ack (n : UInt64)
  | hello
  /-- Session ended (shell exited). -/
  | ended
  deriving DecidableEq

/-- `Frame::encode`. -/
def Frame.encode : Frame → List UInt8
  | .data b => tData :: b
  | .output offset bytes => tOutput :: (u64ToBe offset ++ bytes)
  | .resize cols rows => tResize :: (u16ToBe cols ++ u16ToBe rows)
  | .ping => [tPing]
  | .pong => [tPong]
  | .ack n => tAck :: u64ToBe n
  | .hello => tHello :: helloMagic
  | .ended => [tEnded]

/-- `Frame::decode`. -/
def Frame.decode : List UInt8 → Except String Frame
  | [] => .error "empty frame"
  | t :: rest =>
    match t with
    | tData => .ok (.data rest)
    | tOutput =>
      if rest.length < 8 ∨ maxOutputBytes < rest.length - 8 then
        .error "bad output frame length"
      else
        let offset := u64FromBe (rest.take 8)
        let bytes := rest.drop 8
        match checkedAdd offset bytes.length with
        | none => .error "output offset overflow"
        | some _ => .ok (.output offset bytes)
    | tResize =>
      if rest.length ≠ 4 then .error "bad resize frame"
      else .ok (.resize (u16FromBe (rest.take 2)) (u16FromBe (rest.drop 2)))
    | tPing => .ok .ping
    | tPong => .ok .pong
    | tAck =>
      if rest.length ≠ 8 then .error "bad ack frame"
      else .ok (.ack (u64FromBe rest))
    | tHello => if rest ≠ helloMagic then .error "bad hello magic" else .ok .hello
    | tEnded => .ok .ended
    | other => .error s!"unknown frame type {other}"

/-- The bounds `decode` puts on an `Output` frame; every other frame has none. -/
def Frame.InBounds : Frame → Prop
  | .output offset bytes => bytes.length ≤ maxOutputBytes ∧ offset.toNat + bytes.length < 2 ^ 64
  | _ => True

section Arms

variable (rest : List UInt8)

@[simp] theorem Frame.decode_tData : Frame.decode (tData :: rest) = .ok (.data rest) := rfl
@[simp] theorem Frame.decode_tPing : Frame.decode (tPing :: rest) = .ok .ping := rfl
@[simp] theorem Frame.decode_tPong : Frame.decode (tPong :: rest) = .ok .pong := rfl
@[simp] theorem Frame.decode_tEnded : Frame.decode (tEnded :: rest) = .ok .ended := rfl

theorem Frame.decode_tOutput : Frame.decode (tOutput :: rest) =
    if rest.length < 8 ∨ maxOutputBytes < rest.length - 8 then .error "bad output frame length"
    else match checkedAdd (u64FromBe (rest.take 8)) (rest.drop 8).length with
      | none => .error "output offset overflow"
      | some _ => .ok (.output (u64FromBe (rest.take 8)) (rest.drop 8)) := rfl

theorem Frame.decode_tResize : Frame.decode (tResize :: rest) =
    if rest.length ≠ 4 then .error "bad resize frame"
    else .ok (.resize (u16FromBe (rest.take 2)) (u16FromBe (rest.drop 2))) := rfl

theorem Frame.decode_tAck : Frame.decode (tAck :: rest) =
    if rest.length ≠ 8 then .error "bad ack frame" else .ok (.ack (u64FromBe rest)) := rfl

theorem Frame.decode_tHello : Frame.decode (tHello :: rest) =
    if rest ≠ helloMagic then .error "bad hello magic" else .ok .hello := rfl

end Arms

theorem Frame.decode_output (offset : UInt64) (bytes : List UInt8) :
    Frame.decode (Frame.output offset bytes).encode =
      if maxOutputBytes < bytes.length then .error "bad output frame length"
      else match checkedAdd offset bytes.length with
        | none => .error "output offset overflow"
        | some _ => .ok (.output offset bytes) := by
  have htake : (u64ToBe offset ++ bytes).take 8 = u64ToBe offset :=
    List.take_left' (length_u64ToBe offset)
  have hdrop : (u64ToBe offset ++ bytes).drop 8 = bytes :=
    List.drop_left' (length_u64ToBe offset)
  have hlen : ¬ 8 + bytes.length < 8 := by omega
  rw [Frame.encode, Frame.decode_tOutput, htake, hdrop, u64FromBe_toBe, List.length_append,
    length_u64ToBe, Nat.add_sub_cancel_left]
  simp only [hlen, false_or]

/-- **The codec round trip.** -/
theorem Frame.decode_encode {f : Frame} (h : f.InBounds) : Frame.decode f.encode = .ok f := by
  cases f with
  | data b => rfl
  | output offset bytes =>
    obtain ⟨hlen, hov⟩ := h
    obtain ⟨e, he⟩ : ∃ e, checkedAdd offset bytes.length = some e := by
      rw [← Option.ne_none_iff_exists', ne_eq, checkedAdd_eq_none]
      omega
    rw [Frame.decode_output, if_neg (by omega), he]
  | resize cols rows =>
    have htake : (u16ToBe cols ++ u16ToBe rows).take 2 = u16ToBe cols :=
      List.take_left' (length_u16ToBe cols)
    have hdrop : (u16ToBe cols ++ u16ToBe rows).drop 2 = u16ToBe rows :=
      List.drop_left' (length_u16ToBe cols)
    rw [Frame.encode, Frame.decode_tResize, htake, hdrop, if_neg (by simp), u16FromBe_toBe,
      u16FromBe_toBe]
  | ping => rfl
  | pong => rfl
  | ack n => rw [Frame.encode, Frame.decode_tAck, if_neg (by simp), u64FromBe_toBe]
  | hello => rw [Frame.encode, Frame.decode_tHello, if_neg (by simp)]
  | ended => rfl

/-- What is decoded is within the bounds. -/
theorem Frame.inBounds_of_decode {pt : List UInt8} {f : Frame} (h : Frame.decode pt = .ok f) :
    f.InBounds := by
  cases f with
  | output offset bytes =>
    unfold Frame.decode at h
    split at h
    · cases h
    · split at h
      · cases h
      · -- the only arm that returns an `Output`
        split_ifs at h with hlen
        dsimp only at h
        split at h
        · cases h
        · rename_i t rest _ e he
          cases h
          rw [not_or, Nat.not_lt, Nat.not_lt] at hlen
          have hend := checkedAdd_eq_some.1 he
          have hlt := e.toNat_lt
          exact ⟨by rw [List.length_drop]; exact hlen.2, by omega⟩
      all_goals
        try split_ifs at h
        all_goals cases h
  | _ => trivial

/-- An encoded frame never decodes to a different one. -/
theorem Frame.eq_of_decode_encode {f f' : Frame} (h : Frame.decode f.encode = .ok f') :
    f' = f := by
  by_cases hb : f.InBounds
  · rw [Frame.decode_encode hb] at h
    exact (Except.ok.inj h).symm
  · cases f with
    | output offset bytes =>
      rw [Frame.decode_output] at h
      split_ifs at h
      split at h <;> simp at h
      exact h.symm
    | _ => exact absurd trivial hb

/-! ### Records -/

variable {Key : Type}

/-- `write_frame`: the bytes handed to the writer, or the error before anything is written, with
the next sealer state and the call of `encrypt`. -/
def writeFrame (A : Aead Key) (s : Sealer Key) (frame : Frame) :
    Except String (List UInt8) × Sealer Key × Option (Encryption Key) :=
  match s.seal A frame.encode with
  | (.error e, s', call) => (.error e, s', call)
  | (.ok ct, s', call) =>
    if maxRecord < ct.length then (.error "record too large", s', call)
    else (.ok (u32ToBe (UInt32.ofNat ct.length) ++ ct), s', call)

/-- `read_exact`: the first `n` bytes of the stream and the rest of it. -/
def readExact (n : ℕ) (r : List UInt8) : Option (List UInt8 × List UInt8) :=
  if n ≤ r.length then some (r.take n, r.drop n) else none

/-- `read_frame`: the outcome, what is left of the stream and the next opener state. -/
def readFrame (A : Aead Key) (r : List UInt8) (o : Opener Key) :
    Except String Frame × List UInt8 × Opener Key :=
  match readExact 4 r with
  | none => (.error "early eof", [], o)
  | some (lenBuf, r) =>
    let len := u32FromBe lenBuf
    if len = 0 ∨ maxRecord < len.toNat then (.error s!"bad record length {len}", r, o)
    else
      match readExact len.toNat r with
      | none => (.error "early eof", [], o)
      | some (ct, r) =>
        match o.open_ A ct with
        | (.error e, o') => (.error e, r, o')
        | (.ok pt, o') => (Frame.decode pt, r, o')

/-- `n` successive calls of `read_frame`, stopped by the first error: the frames returned. -/
def readFrames (A : Aead Key) : ℕ → List UInt8 → Opener Key → List Frame
  | 0, _, _ => []
  | n + 1, r, o =>
    match readFrame A r o with
    | (.error _, _, _) => []
    | (.ok f, r', o') => f :: readFrames A n r' o'

/-- A frame is returned only when a record opened and decoded to it. -/
theorem readFrame_eq_ok {A : Aead Key} {r r' : List UInt8} {o o' : Opener Key} {f : Frame}
    (h : readFrame A r o = (.ok f, r', o')) :
    ∃ ct pt, o.open_ A ct = (.ok pt, o') ∧ Frame.decode pt = .ok f := by
  unfold readFrame at h
  split at h
  · simp at h
  · dsimp only at h
    split_ifs at h
    · simp at h
    · split at h
      · simp at h
      · rename_i ct r₂ _
        split at h
        · simp at h
        · rename_i pt o₂ hopen
          simp only [Prod.mk.injEq] at h
          obtain ⟨hdec, -, rfl⟩ := h
          exact ⟨ct, pt, hopen, hdec⟩

end Thther
