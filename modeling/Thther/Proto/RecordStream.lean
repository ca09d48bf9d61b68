import Thther.Proto.Frame

/-!
# Authenticity of a record stream

A receiver calls `read_frame` repeatedly with one `Opener` on a byte stream an attacker controls.
Under an ideal AEAD the frames it returns are the first frames the honest peer sealed for that
key and direction (`readFrames_isPrefix`).

The honest traffic is `sent k dir`: the frames sealed under the key `k` of a connection in the
direction `dir`.  `sealFrames` runs the peer's `Sealer` over them, so the encryptions the ideal
AEAD may decrypt are those the code makes.
-/

namespace Thther

variable {Key : Type}

/-- A frame, the call of `encrypt` that sealed it, and the ciphertext. -/
structure SealedRecord (Key : Type) where
  frame : Frame
  call : Encryption Key
  ciphertext : List UInt8

/-- Successive frames through one sealer, until the first seal that fails. -/
def sealFrames (A : Aead Key) : Sealer Key → List Frame → List (SealedRecord Key)
  | _, [] => []
  | s, f :: fs =>
    match s.seal A f.encode with
    | (.ok ct, s', some call) => ⟨f, call, ct⟩ :: sealFrames A s' fs
    | _ => []

/-- An ideal AEAD for the honest traffic `sent`: `decrypt` under a key and a nonce returns a
plaintext only for a ciphertext that an honest sealer produced for exactly these three. -/
def IdealAead (A : Aead Key) (sent : Key → UInt8 → List Frame) : Prop :=
  ∀ k n ct p, A.decrypt k n ct = some p →
    ∃ dir, ∃ r ∈ sealFrames A (Sealer.new k dir) (sent k dir),
      r.call = ⟨k, n, p⟩ ∧ r.ciphertext = ct

/-- The `j`-th record of a sealer was encrypted under the nonce of its counter plus `j`. -/
theorem sealFrames_getElem? {A : Aead Key} {s : Sealer Key} {fs : List Frame} {j : ℕ}
    {r : SealedRecord Key} (h : (sealFrames A s fs)[j]? = some r) :
    ∃ c : UInt64, c.toNat = s.counter.toNat + j ∧
      r.call = ⟨s.key, nonceFor s.dir c, r.frame.encode⟩ := by
  induction fs generalizing s j with
  | nil => simp [sealFrames] at h
  | cons f fs ih =>
    rcases s.seal_cases A f.encode with ⟨-, hs⟩ | ⟨counter, res, hc, hs, -⟩
    · simp [sealFrames, hs] at h
    · cases res with
      | error e => simp [sealFrames, hs] at h
      | ok ct =>
        rw [sealFrames, hs] at h
        cases j with
        | zero =>
          cases h
          exact ⟨s.counter, rfl, rfl⟩
        | succ j =>
          obtain ⟨c, hcj, hr⟩ := ih h
          exact ⟨c, by rw [hcj, hc]; omega, hr⟩

/-- Counters in lock step: what opens at counter `m` is the `m`-th record sealed for the same
key and direction. -/
theorem IdealAead.getElem?_of_decrypt {A : Aead Key} {sent : Key → UInt8 → List Frame}
    (hA : IdealAead A sent) {k : Key} {dir : UInt8} {m : UInt64} {ct pt : List UInt8}
    (h : A.decrypt k (nonceFor dir m) ct = some pt) :
    ∃ r, (sealFrames A (Sealer.new k dir) (sent k dir))[m.toNat]? = some r ∧
      r.frame.encode = pt := by
  obtain ⟨dir', r, hr, hcall, -⟩ := hA _ _ _ _ h
  obtain ⟨j, hj⟩ := List.mem_iff_getElem?.1 hr
  obtain ⟨c, hc, hcall'⟩ := sealFrames_getElem? hj
  rw [hcall, Encryption.mk.injEq] at hcall'
  obtain ⟨-, hnonce, hp⟩ := hcall'
  obtain ⟨hdir, hm⟩ := nonceFor_inj hnonce
  have hjm : j = m.toNat := by
    rw [hm, hc, Sealer.new, UInt64.toNat_zero, Nat.zero_add]
  have hdd : dir' = dir := hdir.symm
  subst hdd hjm
  exact ⟨r, hj, hp.symm⟩

/-- One call of `read_frame` returns the frame at the opener's counter and advances it. -/
theorem readFrame_eq_sealed {A : Aead Key} {sent : Key → UInt8 → List Frame}
    (hA : IdealAead A sent) {r r' : List UInt8} {o o' : Opener Key} {f : Frame}
    (h : readFrame A r o = (.ok f, r', o')) :
    ((sealFrames A (Sealer.new o.key o.dir) (sent o.key o.dir)).map (·.frame))[o.counter.toNat]?
        = some f ∧
      o'.key = o.key ∧ o'.dir = o.dir ∧ o'.counter.toNat = o.counter.toNat + 1 := by
  obtain ⟨ct, pt, hopen, hdec⟩ := readFrame_eq_ok h
  obtain ⟨hdecrypt, hkey, hdir, hcount⟩ := Opener.open_eq_ok hopen
  obtain ⟨rec, hrec, henc⟩ := hA.getElem?_of_decrypt hdecrypt
  rw [← henc] at hdec
  have hf : f = rec.frame := Frame.eq_of_decode_encode hdec
  refine ⟨?_, hkey, hdir, hcount⟩
  rw [List.getElem?_map, hrec, hf]
  rfl

/-- From any opener state, the frames returned continue the sealed sequence at its counter. -/
theorem readFrames_isPrefix_drop {A : Aead Key} {sent : Key → UInt8 → List Frame}
    (hA : IdealAead A sent) (n : ℕ) (r : List UInt8) (o : Opener Key) :
    readFrames A n r o <+:
      ((sealFrames A (Sealer.new o.key o.dir) (sent o.key o.dir)).map (·.frame)).drop
        o.counter.toNat := by
  induction n generalizing r o with
  | zero => exact List.nil_prefix
  | succ n ih =>
    rw [readFrames]
    split
    · exact List.nil_prefix
    · rename_i f r' o' hread
      obtain ⟨hget, hkey, hdir, hcount⟩ := readFrame_eq_sealed hA hread
      obtain ⟨hlt, hf⟩ := List.getElem?_eq_some_iff.1 hget
      have hrest := ih r' o'
      rw [hkey, hdir, hcount] at hrest
      rw [List.drop_eq_getElem_cons hlt, hf, List.cons_prefix_cons]
      exact ⟨rfl, hrest⟩

/-- **Record stream authenticity.**  Whatever the byte stream, the frames returned before the
first error are a prefix of the frames the honest peer sealed for that key and direction; and a
failing `open` leaves the counter unchanged. -/
theorem readFrames_isPrefix (A : Aead Key) (sent : Key → UInt8 → List Frame)
    (hA : IdealAead A sent) (k : Key) (dir : UInt8) (wire : List UInt8) (n : ℕ) :
    readFrames A n wire (Opener.new k dir) <+:
        (sealFrames A (Sealer.new k dir) (sent k dir)).map (·.frame) ∧
      ∀ (o o' : Opener Key) (ct : List UInt8) (e : String),
        o.open_ A ct = (.error e, o') → o'.counter = o.counter := by
  refine ⟨?_, fun o o' ct e h => ?_⟩
  · exact readFrames_isPrefix_drop hA n wire (Opener.new k dir)
  · rw [Opener.open_eq_error h]

/-- A cipher that has produced one ciphertext: the `Ping` sealed first by the client. -/
def onePingAead : Aead Unit where
  encrypt _ n p := some (n ++ p)
  decrypt _ n ct :=
    if n = nonceFor dirClientToServer 0 ∧ ct = n ++ [tPing] then some [tPing] else none

/-- The client sealed one `Ping`. -/
def onePing : Unit → UInt8 → List Frame := fun _ dir =>
  if dir = dirClientToServer then [.ping] else []

theorem onePing_ideal : IdealAead onePingAead onePing := by
  intro k n ct p h
  simp only [onePingAead] at h
  split_ifs at h with hc
  obtain ⟨rfl, rfl⟩ := hc
  cases h
  exact ⟨dirClientToServer, _, List.mem_cons_self, rfl, rfl⟩

/-- The recorded `Ping`, delivered twice: only the first copy is returned. -/
theorem readFrames_isPrefix_replayed :
    readFrames onePingAead 2
        (([0, 0, 0, 13] ++ nonceFor 0 0 ++ [2]) ++ ([0, 0, 0, 13] ++ nonceFor 0 0 ++ [2]))
        (Opener.new () dirClientToServer) = [.ping] ∧
      readFrames onePingAead 2
        (([0, 0, 0, 13] ++ nonceFor 0 0 ++ [2]) ++ ([0, 0, 0, 13] ++ nonceFor 0 0 ++ [2]))
        (Opener.new () dirClientToServer) <+: [.ping] :=
  ⟨by decide, (readFrames_isPrefix onePingAead onePing onePing_ideal () dirClientToServer _ 2).1⟩

end Thther
