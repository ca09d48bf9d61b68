import Thther.Proto.Frame

/-!
# The round trip of the wire format (`proto/frame.rs`, `proto/crypto.rs`)

A list of frames goes through one `Sealer` with `write_frame` and comes back through an `Opener`
of the same key and direction with `read_frame`.

* `Aead.Lawful`: what is relied on of the cipher;
* `writeFrame_readFrame`, `readFrame_cut`: one record, whole or cut short;
* `wire_round_trip`: any list of frames, whole or cut anywhere.
-/

namespace Thther

variable {Key : Type}

/-- The length of the tag of ChaCha20-Poly1305. -/
def tagLen : ℕ := 16

/-- The cipher undoes itself: up to the record limit, `encrypt` adds a tag, and `decrypt` under the
same key and nonce takes it off. -/
def Aead.Lawful (A : Aead Key) : Prop :=
  ∀ k n p, p.length + tagLen ≤ maxRecord →
    ∃ ct, A.encrypt k n p = some ct ∧ ct.length = p.length + tagLen ∧ A.decrypt k n ct = some p

/-- An `Output` within the bounds of the codec, a `Data` that fits a record, or any other frame. -/
def Frame.Sendable : Frame → Prop
  | .data b => (Frame.data b).encode.length + tagLen ≤ maxRecord
  | f => f.InBounds

theorem Frame.Sendable.inBounds {f : Frame} (h : f.Sendable) : f.InBounds := by
  cases f with
  | data b => trivial
  | _ => exact h

/-- A sendable frame fits a record. -/
theorem Frame.Sendable.fits {f : Frame} (h : f.Sendable) :
    f.encode.length + tagLen ≤ maxRecord := by
  cases f with
  | data b => exact h
  | output offset bytes =>
    have hlen : bytes.length ≤ 64 * 1024 := h.1
    rw [Frame.encode, List.length_cons, List.length_append, length_u64ToBe]
    unfold tagLen maxRecord
    omega
  | resize cols rows =>
    rw [Frame.encode, List.length_cons, List.length_append, length_u16ToBe, length_u16ToBe]
    decide
  | ack n =>
    rw [Frame.encode, List.length_cons, length_u64ToBe]
    decide
  | _ => decide

theorem Frame.encode_ne_nil (f : Frame) : 0 < f.encode.length := by
  cases f <;> exact Nat.succ_pos _

/-! ### Sequences of calls -/

/-- Successive calls of `write_frame`, up to the first error: the bytes written. -/
def writeFrames (A : Aead Key) (s : Sealer Key) :
    List Frame → Except String (List UInt8) × Sealer Key
  | [] => (.ok [], s)
  | f :: fs =>
    match writeFrame A s f with
    | (.error e, s', _) => (.error e, s')
    | (.ok record, s', _) =>
      match writeFrames A s' fs with
      | (.error e, s'') => (.error e, s'')
      | (.ok records, s'') => (.ok (record ++ records), s'')

/-- `n` successive calls of `read_frame`, up to the first error: the frames, what is left of the
stream and the opener. -/
def readN (A : Aead Key) :
    ℕ → List UInt8 → Opener Key → Except String (List Frame) × List UInt8 × Opener Key
  | 0, r, o => (.ok [], r, o)
  | n + 1, r, o =>
    match readFrame A r o with
    | (.error e, r', o') => (.error e, r', o')
    | (.ok f, r', o') =>
      match readN A n r' o' with
      | (.error e, rest) => (.error e, rest)
      | (.ok fs, rest) => (.ok (f :: fs), rest)

/-- The first of `n + 1` successful calls, and the others. -/
theorem readN_succ_eq_ok {A : Aead Key} {n : ℕ} {r : List UInt8} {o : Opener Key}
    {fs : List Frame} {rest : List UInt8 × Opener Key} (h : readN A (n + 1) r o = (.ok fs, rest)) :
    ∃ f gs r₁ o₁, fs = f :: gs ∧ readFrame A r o = (.ok f, r₁, o₁) ∧
      readN A n r₁ o₁ = (.ok gs, rest) := by
  rw [readN] at h
  rcases hf : readFrame A r o with ⟨e | f, r₁, o₁⟩
  · rw [hf] at h
    cases h
  · rw [hf] at h
    dsimp only at h
    rcases hgs : readN A n r₁ o₁ with ⟨e | gs, rest'⟩
    · rw [hgs] at h
      cases h
    · rw [hgs] at h
      cases h
      exact ⟨f, gs, r₁, o₁, rfl, rfl, hgs⟩

/-- One more call. -/
theorem readN_concat {A : Aead Key} {n : ℕ} {r r₁ r₂ : List UInt8} {o o₁ o₂ : Opener Key}
    {fs : List Frame} {f : Frame} (h : readN A n r o = (.ok fs, r₁, o₁))
    (hf : readFrame A r₁ o₁ = (.ok f, r₂, o₂)) :
    readN A (n + 1) r o = (.ok (fs ++ [f]), r₂, o₂) := by
  induction n generalizing r o fs with
  | zero =>
    cases h
    rw [readN, hf]
    rfl
  | succ n ih =>
    obtain ⟨g, gs, r', o', rfl, hg, hgs⟩ := readN_succ_eq_ok h
    rw [readN, hg]
    dsimp only
    rw [ih hgs]
    rfl

/-- The length of a record. -/
def recordLength (f : Frame) : ℕ := 4 + (f.encode.length + tagLen)

/-- The length of a sequence of records. -/
def wireLength (fs : List Frame) : ℕ := (fs.map recordLength).sum

@[simp] theorem wireLength_nil : wireLength [] = 0 := rfl

@[simp] theorem wireLength_cons (f : Frame) (fs : List Frame) :
    wireLength (f :: fs) = recordLength f + wireLength fs := by
  simp [wireLength]

@[simp] theorem wireLength_append (fs gs : List Frame) :
    wireLength (fs ++ gs) = wireLength fs + wireLength gs := by
  simp [wireLength]

/-- The opener in step with a sealer. -/
def Sealer.opener (s : Sealer Key) : Opener Key := ⟨s.key, s.dir, s.counter⟩

/-! ### One record -/

section Record

variable {A : Aead Key}

theorem readExact_append (a rest : List UInt8) :
    readExact a.length (a ++ rest) = some (a, rest) := by
  unfold readExact
  rw [if_pos (by simp), List.take_left, List.drop_left]

theorem readExact_eq_none {n : ℕ} {r : List UInt8} (h : r.length < n) : readExact n r = none :=
  if_neg (by omega)

/-- The bytes of a record before the ciphertext. -/
def recordHeader (ct : List UInt8) : List UInt8 := u32ToBe (UInt32.ofNat ct.length)

theorem u32FromBe_recordHeader {ct : List UInt8} (h : ct.length ≤ maxRecord) :
    (u32FromBe (recordHeader ct)).toNat = ct.length := by
  have hmax : maxRecord < 2 ^ 32 := by decide
  rw [recordHeader, u32FromBe_toBe, UInt32.toNat_ofNat', Nat.mod_eq_of_lt (by omega)]

@[simp] theorem length_recordHeader (ct : List UInt8) : (recordHeader ct).length = 4 :=
  length_u32ToBe _

/-- `read_frame` once the header of a record has arrived. -/
theorem readFrame_header {ct r : List UInt8} (o : Opener Key) (hpos : 0 < ct.length)
    (hmax : ct.length ≤ maxRecord) :
    readFrame A (recordHeader ct ++ r) o =
      match readExact ct.length r with
      | none => (.error "early eof", [], o)
      | some (ct, r) =>
        match o.open_ A ct with
        | (.error e, o') => (.error e, r, o')
        | (.ok pt, o') => (Frame.decode pt, r, o') := by
  have hlen := u32FromBe_recordHeader hmax
  have hread : readExact 4 (recordHeader ct ++ r) = some (recordHeader ct, r) := by
    rw [← length_recordHeader ct, readExact_append]
  have hok : ¬ (u32FromBe (recordHeader ct) = 0 ∨
      maxRecord < (u32FromBe (recordHeader ct)).toNat) := by
    rw [← UInt32.toNat_inj, hlen, UInt32.toNat_zero]
    omega
  unfold readFrame
  rw [hread]
  dsimp only
  rewrite [if_neg hok, hlen]
  rfl

/-- A record cut short is an error, and nothing is opened. -/
theorem readFrame_cut {ct : List UInt8} (o : Opener Key) (hpos : 0 < ct.length)
    (hmax : ct.length ≤ maxRecord) {c : ℕ} (hc : c < 4 + ct.length) :
    readFrame A ((recordHeader ct ++ ct).take c) o = (.error "early eof", [], o) := by
  rw [List.take_append, length_recordHeader]
  rcases Nat.lt_or_ge c 4 with hlt | hge
  · have hshort : readExact 4 ((recordHeader ct).take c ++ ct.take (c - 4)) = none := by
      apply readExact_eq_none
      rw [List.length_append, List.length_take, List.length_take, length_recordHeader]
      omega
    unfold readFrame
    rw [hshort]
  · have hshort : readExact ct.length (ct.take (c - 4)) = none := by
      apply readExact_eq_none
      rw [List.length_take]
      omega
    rw [List.take_of_length_le (by rw [length_recordHeader]; omega), readFrame_header o hpos hmax,
      hshort]

/-- **One frame.**  Short of the last counter, a sendable frame becomes one record; an opener in
step reads the frame back from it and stays in step; and from a part of it reads an error. -/
theorem writeFrame_readFrame (hA : A.Lawful) {f : Frame} (hf : f.Sendable) {s : Sealer Key}
    (hs : s.counter.toNat + 1 < 2 ^ 64) :
    ∃ record s' call, writeFrame A s f = (.ok record, s', call) ∧
      s'.key = s.key ∧ s'.dir = s.dir ∧ s'.counter.toNat = s.counter.toNat + 1 ∧
      record.length = recordLength f ∧
      (∀ rest, readFrame A (record ++ rest) s.opener = (.ok f, rest, s'.opener)) ∧
      ∀ c, c < record.length →
        readFrame A (record.take c) s.opener = (.error "early eof", [], s.opener) := by
  obtain ⟨ct, henc, hlen, hdec⟩ := hA s.key (nonceFor s.dir s.counter) f.encode hf.fits
  obtain ⟨counter, hadd⟩ : ∃ counter, checkedAdd s.counter 1 = some counter := by
    rw [← Option.ne_none_iff_exists', ne_eq, checkedAdd_eq_none]
    omega
  have hfits := hf.fits
  have hmax : ct.length ≤ maxRecord := by omega
  have hpos : 0 < ct.length := by
    have := f.encode_ne_nil
    omega
  have hseal : s.seal A f.encode = (.ok ct, { s with counter },
      some ⟨s.key, nonceFor s.dir s.counter, f.encode⟩) := by
    unfold Sealer.seal
    simp only [hadd, henc]
  have hopen : s.opener.open_ A ct = (.ok f.encode, Sealer.opener { s with counter }) := by
    unfold Opener.open_ Sealer.opener
    simp only [hdec, hadd]
  have hwrite : writeFrame A s f = (.ok (recordHeader ct ++ ct), { s with counter },
      some ⟨s.key, nonceFor s.dir s.counter, f.encode⟩) := by
    unfold writeFrame
    rw [hseal]
    dsimp only
    rw [if_neg (by omega)]
    rfl
  have hreclen : (recordHeader ct ++ ct).length = recordLength f := by
    rw [List.length_append, length_recordHeader, hlen]
    rfl
  refine ⟨_, _, _, hwrite, rfl, rfl, checkedAdd_eq_some.1 hadd, hreclen, ?_, ?_⟩
  · intro rest
    rw [List.append_assoc, readFrame_header _ hpos hmax, readExact_append]
    dsimp only
    rw [hopen]
    dsimp only
    rw [Frame.decode_encode hf.inBounds]
  · intro c hc
    rw [List.length_append, length_recordHeader] at hc
    exact readFrame_cut _ hpos hmax hc

/-- The last counter seals nothing. -/
theorem writeFrames_exhausted (s : Sealer Key) {fs : List Frame}
    (h : 2 ^ 64 ≤ s.counter.toNat + fs.length) : ∃ e s', writeFrames A s fs = (.error e, s') := by
  induction fs generalizing s with
  | nil =>
    have := s.counter.toNat_lt
    rw [List.length_nil] at h
    omega
  | cons f fs ih =>
    rw [List.length_cons] at h
    unfold writeFrames writeFrame
    rcases s.seal_cases A f.encode with ⟨-, hs⟩ | ⟨counter, res, hc, hs, -⟩
    · rw [hs]
      exact ⟨_, _, rfl⟩
    · rw [hs]
      cases res with
      | error e => exact ⟨_, _, rfl⟩
      | ok ct =>
        dsimp only
        by_cases hmax : maxRecord < ct.length
        · rw [if_pos hmax]
          exact ⟨_, _, rfl⟩
        · obtain ⟨e, s', hrest⟩ := ih { s with counter } (by dsimp only; omega)
          rw [if_neg hmax]
          dsimp only
          rw [hrest]
          exact ⟨_, _, rfl⟩

end Record

/-! ### Any sequence of frames -/

/-- What a reader in step gets from the records of `fs`, from the counter of `s` to that of `s'`:
all of them from the whole stream, and from a stream cut at `c` those that lie before `c`, then an
error. -/
structure ReadsBack (A : Aead Key) (s s' : Sealer Key) (fs : List Frame) (wire : List UInt8) :
    Prop where
  length : wire.length = wireLength fs
  whole : ∀ rest, readN A fs.length (wire ++ rest) s.opener = (.ok fs, rest, s'.opener)
  cut : ∀ c, c < wire.length → ∃ k, k < fs.length ∧
    (∀ i, i ≤ fs.length → (i ≤ k ↔ wireLength (fs.take i) ≤ c)) ∧
    ∃ r o, readN A k (wire.take c) s.opener = (.ok (fs.take k), r, o) ∧
      ∃ e, (readFrame A r o).1 = .error e

/-- The records of a list, one after the other. -/
theorem writeFrames_readsBack {A : Aead Key} (hA : A.Lawful) {fs : List Frame}
    (hfs : ∀ f ∈ fs, f.Sendable) {s : Sealer Key} (hs : s.counter.toNat + fs.length < 2 ^ 64) :
    ∃ wire s', writeFrames A s fs = (.ok wire, s') ∧ s'.key = s.key ∧ s'.dir = s.dir ∧
      s'.counter.toNat = s.counter.toNat + fs.length ∧ ReadsBack A s s' fs wire := by
  induction fs generalizing s with
  | nil =>
    refine ⟨[], s, rfl, rfl, rfl, rfl, rfl, fun rest => rfl, ?_⟩
    intro c hc
    cases hc
  | cons f fs ih =>
    rw [List.length_cons] at hs
    obtain ⟨record, s₁, call, hwrite, hkey, hdir, hcount, hlen, hread, hcut⟩ :=
      writeFrame_readFrame hA (hfs f List.mem_cons_self) (s := s) (by omega)
    obtain ⟨wire, s', hrest, hkey', hdir', hcount', hback⟩ :=
      ih (fun g hg => hfs g (List.mem_cons_of_mem _ hg)) (s := s₁) (by omega)
    have hnext : ∀ n tail, readN A (n + 1) (record ++ tail) s.opener =
        match readN A n tail s₁.opener with
        | (.error e, rest) => (.error e, rest)
        | (.ok fs, rest) => (.ok (f :: fs), rest) := by
      intro n tail
      rw [readN, hread]
    refine ⟨record ++ wire, s', ?_, ?_, ?_, ?_, ?_, ?_, ?_⟩
    · unfold writeFrames
      rw [hwrite]
      dsimp only
      rw [hrest]
    · rw [hkey', hkey]
    · rw [hdir', hdir]
    · rw [List.length_cons]
      omega
    · rw [List.length_append, hlen, hback.length, wireLength_cons]
    · intro rest
      rw [List.append_assoc, List.length_cons, hnext, hback.whole]
    · intro c hc
      rw [List.length_append] at hc
      rcases Nat.lt_or_ge c record.length with hlt | hge
      · -- the cut is inside the first record
        refine ⟨0, Nat.succ_pos _, ?_, _, _, rfl, "early eof", ?_⟩
        · intro i hi
          cases i with
          | zero => simp
          | succ i =>
            rw [List.take_succ_cons, wireLength_cons, ← hlen]
            omega
        · rw [List.take_append_of_le_length (Nat.le_of_lt hlt), hcut c hlt]
      · obtain ⟨k, hk, hiff, r, o, hreadk, herr⟩ := hback.cut (c - record.length) (by omega)
        refine ⟨k + 1, Nat.succ_lt_succ hk, ?_, r, o, ?_, herr⟩
        · intro i hi
          cases i with
          | zero => simp
          | succ i =>
            have := hiff i (Nat.le_of_succ_le_succ hi)
            rw [List.take_succ_cons, wireLength_cons, ← hlen]
            omega
        · rw [List.take_append, List.take_of_length_le hge, hnext, hreadk, List.take_succ_cons]

/-- **The wire format round-trips and cuts cleanly.**  Fewer than `2 ^ 64` sendable frames, written
through one new sealer: an opener of the same key and direction reads exactly these frames, the
stream is then empty, and both counters equal their number; and from the stream cut at `c` it reads
exactly the frames whose records lie before `c`, then an error. -/
theorem wire_round_trip (A : Aead Key) (hA : A.Lawful) (key : Key) (dir : UInt8)
    (fs : List Frame) (hfs : ∀ f ∈ fs, f.Sendable) (hlen : fs.length < 2 ^ 64) :
    ∃ wire s o, writeFrames A (Sealer.new key dir) fs = (.ok wire, s) ∧
      readN A fs.length wire (Opener.new key dir) = (.ok fs, [], o) ∧
      s.counter.toNat = fs.length ∧ o.counter.toNat = fs.length ∧
      ∀ c, ∃ k, k ≤ fs.length ∧
        (∀ i, i ≤ fs.length → (i ≤ k ↔ wireLength (fs.take i) ≤ c)) ∧
        ∃ r o, readN A k (wire.take c) (Opener.new key dir) = (.ok (fs.take k), r, o) ∧
          ∃ e, (readFrame A r o).1 = .error e := by
  have hzero : (Sealer.new key dir).counter.toNat = 0 := rfl
  obtain ⟨wire, s, hwrite, -, -, hcount, hback⟩ :=
    writeFrames_readsBack hA hfs (s := Sealer.new key dir) (by omega)
  have hwhole := hback.whole []
  rw [List.append_nil] at hwhole
  refine ⟨wire, s, s.opener, hwrite, hwhole, by omega, ?_, ?_⟩
  · show s.counter.toNat = fs.length
    omega
  · intro c
    rcases Nat.lt_or_ge c wire.length with hlt | hge
    · obtain ⟨k, hk, hiff, hread⟩ := hback.cut c hlt
      exact ⟨k, Nat.le_of_lt hk, hiff, hread⟩
    · -- nothing is cut off
      refine ⟨fs.length, Nat.le_refl _, ?_, [], s.opener, ?_, "early eof", rfl⟩
      · intro i hi
        have hsplit : wireLength fs = wireLength (fs.take i) + wireLength (fs.drop i) := by
          rw [← wireLength_append, List.take_append_drop]
        have := hback.length
        omega
      · rw [List.take_of_length_le hge, List.take_length]
        exact hwhole

/-- A cipher whose ciphertext is a tag of zeros and the plaintext. -/
def paddingAead : Aead Unit where
  encrypt _ _ p := some (List.replicate tagLen 0 ++ p)
  decrypt _ _ ct := some (ct.drop tagLen)

theorem paddingAead_lawful : paddingAead.Lawful := by
  intro k n p _
  refine ⟨_, rfl, ?_, ?_⟩
  · rw [List.length_append, List.length_replicate, Nat.add_comm]
  · show some ((List.replicate tagLen 0 ++ p).drop tagLen) = some p
    rw [List.drop_left' List.length_replicate]

/-- Two frames. -/
theorem wire_round_trip_two : ∃ wire s o,
    writeFrames paddingAead (Sealer.new () 0) [.ping, .data [7]] = (.ok wire, s) ∧
      readN paddingAead 2 wire (Opener.new () 0) = (.ok [.ping, .data [7]], [], o) := by
  obtain ⟨wire, s, o, hwrite, hread, -⟩ := wire_round_trip paddingAead paddingAead_lawful () 0
    [.ping, .data [7]] (by
      intro f hf
      rcases List.mem_pair.1 hf with rfl | rfl
      · trivial
      · show (2 : ℕ) + 16 ≤ maxRecord
        decide) (by decide)
  exact ⟨wire, s, o, hwrite, hread⟩

/-- Of `2 ^ 64` frames, each of them sendable, the last one is not written: its counter has no
successor. -/
theorem wire_refuses_last_counter :
    paddingAead.Lawful ∧ (∀ f ∈ List.replicate (2 ^ 64) Frame.ping, f.Sendable) ∧
      ¬ ∃ wire s, writeFrames paddingAead (Sealer.new () 0) (List.replicate (2 ^ 64) Frame.ping) =
        (.ok wire, s) := by
  refine ⟨paddingAead_lawful, ?_, ?_⟩
  · intro f hf
    rw [List.eq_of_mem_replicate hf]
    trivial
  · rintro ⟨wire, s, hwrite⟩
    have hlen : 2 ^ 64 ≤ (Sealer.new () 0).counter.toNat +
        (List.replicate (2 ^ 64) Frame.ping).length := by
      rw [List.length_replicate]
      exact Nat.le_add_left _ _
    obtain ⟨e, s', herr⟩ := writeFrames_exhausted (A := paddingAead) (Sealer.new () 0) hlen
    rw [hwrite] at herr
    cases herr

end Thther
