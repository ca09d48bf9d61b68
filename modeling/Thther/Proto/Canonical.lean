import Thther.Proto.Frame

/-!
# What `Frame::decode` accepts (`proto/frame.rs`)

A frame within the bounds is decoded from its encoding.  The other direction, that nothing else is
decoded to it, holds arm by arm where the arm looks at the whole payload; the arms of `Ping`,
`Pong` and `Ended` do not.

* `Frame.eq_encode_of_decode`: a byte string that is decoded is an encoding, or one of these three
  types with a payload;
* `decode_exact_iff`: on which byte strings `decode` is exact.
-/

namespace Thther

/-- `decode` accepts `pt` as the encoding of a frame within the bounds, and of no other, or does
not accept it. -/
def DecodesExactly (pt : List UInt8) : Prop :=
  ∀ f, Frame.decode pt = .ok f ↔ f.InBounds ∧ pt = f.encode

/-- A `Ping`, `Pong` or `Ended` with bytes behind its type. -/
def HasTrailing : List UInt8 → Prop
  | [] => False
  | t :: rest => (t = tPing ∨ t = tPong ∨ t = tEnded) ∧ rest ≠ []

/-! ### Every arm -/

theorem Frame.eq_encode_of_decode_output {rest : List UInt8} {f : Frame}
    (h : Frame.decode (tOutput :: rest) = .ok f) : tOutput :: rest = f.encode := by
  rw [Frame.decode_tOutput] at h
  split_ifs at h with hlen
  split at h
  · cases h
  · cases h
    rw [not_or, Nat.not_lt] at hlen
    have htake : (rest.take 8).length = 8 := by
      rw [List.length_take, Nat.min_eq_left hlen.1]
    rw [Frame.encode, u64ToBe_fromBe htake, List.take_append_drop]

theorem Frame.eq_encode_of_decode_resize {rest : List UInt8} {f : Frame}
    (h : Frame.decode (tResize :: rest) = .ok f) : tResize :: rest = f.encode := by
  rw [Frame.decode_tResize] at h
  split_ifs at h with hlen
  cases h
  rw [not_not] at hlen
  have htake : (rest.take 2).length = 2 := by
    rw [List.length_take]
    omega
  have hdrop : (rest.drop 2).length = 2 := by
    rw [List.length_drop]
    omega
  rw [Frame.encode, u16ToBe_fromBe htake, u16ToBe_fromBe hdrop, List.take_append_drop]

theorem Frame.eq_encode_of_decode_ack {rest : List UInt8} {f : Frame}
    (h : Frame.decode (tAck :: rest) = .ok f) : tAck :: rest = f.encode := by
  rw [Frame.decode_tAck] at h
  split_ifs at h with hlen
  cases h
  rw [not_not] at hlen
  rw [Frame.encode, u64ToBe_fromBe hlen]

theorem Frame.eq_encode_of_decode_hello {rest : List UInt8} {f : Frame}
    (h : Frame.decode (tHello :: rest) = .ok f) : tHello :: rest = f.encode := by
  rw [Frame.decode_tHello] at h
  split_ifs at h with hmagic
  cases h
  rw [not_not] at hmagic
  rw [Frame.encode, hmagic]

/-- What is decoded is the encoding of the frame returned, up to the bytes that the arms of `Ping`,
`Pong` and `Ended` do not look at. -/
theorem Frame.eq_encode_of_decode {pt : List UInt8} {f : Frame} (h : Frame.decode pt = .ok f)
    (ht : ¬ HasTrailing pt) : pt = f.encode := by
  cases pt with
  | nil => cases h
  | cons t rest =>
    have hbare : t = tPing ∨ t = tPong ∨ t = tEnded → rest = [] := by
      intro hor
      by_contra hne
      exact ht ⟨hor, hne⟩
    unfold Frame.decode at h
    dsimp only at h
    split at h
    · cases h
      rfl
    · exact Frame.eq_encode_of_decode_output h
    · exact Frame.eq_encode_of_decode_resize h
    · cases h
      rw [hbare (Or.inl rfl)]
      rfl
    · cases h
      rw [hbare (Or.inr (Or.inl rfl))]
      rfl
    · exact Frame.eq_encode_of_decode_ack h
    · exact Frame.eq_encode_of_decode_hello h
    · cases h
      rw [hbare (Or.inr (Or.inr rfl))]
      rfl
    · cases h

/-- The three arms that do not look at their payload. -/
theorem Frame.decode_of_hasTrailing {pt : List UInt8} (h : HasTrailing pt) :
    ∃ f, Frame.decode pt = .ok f ∧ pt ≠ f.encode := by
  cases pt with
  | nil => exact absurd h id
  | cons t rest =>
    obtain ⟨htype, hne⟩ := h
    have hlonger : ∀ b : UInt8, t :: rest ≠ [b] := by
      intro b heq
      exact hne (List.cons.inj heq).2
    rcases htype with rfl | rfl | rfl
    · exact ⟨.ping, rfl, hlonger _⟩
    · exact ⟨.pong, rfl, hlonger _⟩
    · exact ⟨.ended, rfl, hlonger _⟩

/-! ### Where the codec is exact -/

/-- **`decode` accepts exactly the encodings** among the byte strings that are not a `Ping`, `Pong`
or `Ended` with bytes behind it, and is injective on them; it accepts each of the others, which no
frame is encoded to. -/
theorem decode_exact_iff (pt : List UInt8) :
    (DecodesExactly pt ↔ ¬ HasTrailing pt) ∧
      ∀ pt' f, ¬ HasTrailing pt → ¬ HasTrailing pt' →
        Frame.decode pt = .ok f → Frame.decode pt' = .ok f → pt = pt' := by
  refine ⟨⟨?_, ?_⟩, ?_⟩
  · intro hexact htrailing
    obtain ⟨f, hf, hne⟩ := Frame.decode_of_hasTrailing htrailing
    exact hne ((hexact f).1 hf).2
  · intro ht f
    constructor
    · intro h
      exact ⟨Frame.inBounds_of_decode h, Frame.eq_encode_of_decode h ht⟩
    · rintro ⟨hbounds, rfl⟩
      exact Frame.decode_encode hbounds
  · intro pt' f ht ht' h h'
    rw [Frame.eq_encode_of_decode h ht, Frame.eq_encode_of_decode h' ht']

/-- A byte behind a `Ping` is ignored, and two byte strings decode to one frame. -/
theorem decode_ignores_trailing :
    Frame.decode [tPing, 99] = .ok .ping ∧ Frame.decode [tPing] = .ok .ping ∧
      ¬ DecodesExactly [tPing, 99] := by
  refine ⟨rfl, rfl, ?_⟩
  intro h
  have heq : [tPing, 99] = Frame.ping.encode := ((h .ping).1 rfl).2
  exact absurd heq (by decide)

end Thther
