import Thther.Client.Drive

/-!
# Stdout as an asynchronous writer, and the atomicity of a commit

`AsyncWrite` is a writer with a buffer: it takes as many bytes as it likes, brings them to the
terminal when it likes, at the latest when it is flushed, and may fail at any write or flush, also
with the error of bytes it has taken before.  `AsyncWrite.writeAll` is the loop of `write_all` over
it.  Whatever it does, the terminal shows the output of whole frames when `client_reader` returns
`Ok`, and an error of stdout is the end of `drive` (`output_commit_atomic`).

What the output of a frame is, is said by `SessionOutput.accept` itself, on the stdout that records
every piece: `Mirrors` compares a session's stdout with such a recording, `Torn` one that failed.
-/

namespace Thther

open Transcript

variable {Key W : Type}

/-- A write that takes part of a non-empty buffer. -/
def tookSome : Except String ℕ → Bool
  | .ok n => decide (0 < n)
  | .error _ => false

/-- A writer.  `taken` is what its writes have taken, and `flushed` what is certain to have reached
the terminal: all of it after a successful flush, and until then no one knows how much.  `failed`
says that some write or flush has failed; what was taken before may then be lost. -/
structure AsyncWrite (W : Type) where
  write : W → List UInt8 → Except String ℕ × W
  flush : W → Except String Unit × W
  taken : W → List UInt8
  flushed : W → List UInt8
  failed : W → Bool
  flushed_isPrefix : ∀ w, flushed w <+: taken w
  le_of_write : ∀ {w w' buf n}, write w buf = (.ok n, w') → n ≤ buf.length
  taken_write : ∀ {w w' buf n}, write w buf = (.ok n, w') → taken w' = taken w ++ buf.take n
  taken_write_error : ∀ {w w' buf e}, write w buf = (.error e, w') → taken w' = taken w
  flushed_write : ∀ w buf, flushed w <+: flushed (write w buf).2
  taken_flush : ∀ w, taken (flush w).2 = taken w
  flushed_flush : ∀ w, flushed w <+: flushed (flush w).2
  flushed_of_ok : ∀ {w w'}, failed w = false → flush w = (.ok (), w') → flushed w' = taken w'
  failed_write : ∀ {w w' buf r}, buf ≠ [] → write w buf = (r, w') →
    failed w' = (failed w || !tookSome r)
  failed_flush : ∀ w, failed (flush w).2 = (failed w || !(flush w).1.isOk)

/-- What may be at the terminal. -/
def AsyncWrite.Shows (io : AsyncWrite W) (w : W) (bs : List UInt8) : Prop :=
  io.flushed w <+: bs ∧ bs <+: io.taken w

/-- Nothing has failed, and all that was taken is at the terminal. -/
structure AsyncWrite.AtRest (io : AsyncWrite W) (w : W) : Prop where
  failed : io.failed w = false
  flushed : io.flushed w = io.taken w

/-- At rest, the terminal shows what was taken. -/
theorem AsyncWrite.AtRest.shows_iff {io : AsyncWrite W} {w : W} (h : io.AtRest w)
    {bs : List UInt8} : io.Shows w bs ↔ bs = io.taken w := by
  unfold AsyncWrite.Shows
  rw [h.flushed]
  constructor
  · rintro ⟨hle, hge⟩
    exact hge.eq_of_length (Nat.le_antisymm hge.length_le hle.length_le)
  · rintro rfl
    exact ⟨List.prefix_rfl, List.prefix_rfl⟩

/-- The loop of `write_all`: write what is left of the buffer until nothing is left. -/
def AsyncWrite.writeLoop (io : AsyncWrite W) : ℕ → W → List UInt8 → Except String Unit × W
  | 0, w, _ => (.ok (), w)
  | fuel + 1, w, buf =>
    if buf = [] then (.ok (), w)
    else
      match io.write w buf with
      | (.error e, w') => (.error e, w')
      | (.ok n, w') =>
        if n = 0 then (.error "write zero", w') else io.writeLoop fuel w' (buf.drop n)

/-- `write_all`: every write takes at least one byte, so the length of the buffer bounds the
loop. -/
def AsyncWrite.writeAll (io : AsyncWrite W) (w : W) (buf : List UInt8) : Except String Unit × W :=
  io.writeLoop buf.length w buf

/-- The writer as the stdout of the session. -/
def AsyncWrite.stdout (io : AsyncWrite W) : Stdout W where
  writeAll w piece := io.writeAll w (pieceBytes piece)
  flush := io.flush

/-- The bytes of a sequence of pieces. -/
def shownBytes (pieces : List (Segment UInt8)) : List UInt8 := pieces.flatMap pieceBytes

theorem shownBytes_append (a b : List (Segment UInt8)) :
    shownBytes (a ++ b) = shownBytes a ++ shownBytes b := List.flatMap_append

@[simp] theorem shownBytes_cons (piece : Segment UInt8) (pieces : List (Segment UInt8)) :
    shownBytes (piece :: pieces) = pieceBytes piece ++ shownBytes pieces := rfl

/-! ### Writes -/

section Writes

variable (io : AsyncWrite W)

/-- From `w` to `w'` all of `bs` was taken, and nothing failed. -/
structure AsyncWrite.Wrote (w w' : W) (bs : List UInt8) : Prop where
  taken : io.taken w' = io.taken w ++ bs
  flushed : io.flushed w <+: io.flushed w'
  failed : io.failed w' = io.failed w

/-- From `w` to `w'` a part of `bs` was taken, and then the writer failed. -/
structure AsyncWrite.BrokeOff (w w' : W) (bs : List UInt8) : Prop where
  taken : ∃ part, part <+: bs ∧ io.taken w' = io.taken w ++ part
  flushed : io.flushed w <+: io.flushed w'
  failed : io.failed w' = true

variable {io}

theorem AsyncWrite.Wrote.refl (w : W) : io.Wrote w w [] :=
  ⟨(List.append_nil _).symm, List.prefix_rfl, rfl⟩

theorem AsyncWrite.Wrote.trans {w w₁ w' : W} {a b : List UInt8} (h : io.Wrote w w₁ a)
    (h' : io.Wrote w₁ w' b) : io.Wrote w w' (a ++ b) where
  taken := by rw [h'.taken, h.taken, List.append_assoc]
  flushed := h.flushed.trans h'.flushed
  failed := h'.failed.trans h.failed

theorem AsyncWrite.Wrote.brokeOff {w w₁ w' : W} {a b : List UInt8} (h : io.Wrote w w₁ a)
    (h' : io.BrokeOff w₁ w' b) : io.BrokeOff w w' (a ++ b) := by
  obtain ⟨part, hpart, htaken⟩ := h'.taken
  refine ⟨⟨a ++ part, ?_, ?_⟩, h.flushed.trans h'.flushed, h'.failed⟩
  · exact (List.prefix_append_right_inj _).2 hpart
  · rw [htaken, h.taken, List.append_assoc]

theorem AsyncWrite.BrokeOff.append {w w' : W} {a : List UInt8} (h : io.BrokeOff w w' a)
    (b : List UInt8) : io.BrokeOff w w' (a ++ b) := by
  obtain ⟨part, hpart, htaken⟩ := h.taken
  exact ⟨⟨part, hpart.trans (List.prefix_append _ _), htaken⟩, h.flushed, h.failed⟩

/-- One write. -/
theorem AsyncWrite.write_cases {w w' : W} {buf : List UInt8} {r : Except String ℕ}
    (hbuf : buf ≠ []) (h : io.write w buf = (r, w')) :
    (∃ n, r = .ok n ∧ 0 < n ∧ n ≤ buf.length ∧ io.Wrote w w' (buf.take n)) ∨
      (tookSome r = false ∧ io.BrokeOff w w' buf) := by
  have hfailed := io.failed_write hbuf h
  have hflushed := io.flushed_write w buf
  rw [h] at hflushed
  cases r with
  | error e =>
    refine Or.inr ⟨rfl, ⟨[], List.nil_prefix, ?_⟩, hflushed, ?_⟩
    · rw [io.taken_write_error h, List.append_nil]
    · rw [hfailed]
      exact Bool.or_true _
  | ok n =>
    by_cases hn : 0 < n
    · refine Or.inl ⟨n, rfl, hn, io.le_of_write h, io.taken_write h, hflushed, ?_⟩
      rw [hfailed, tookSome, decide_eq_true hn]
      exact Bool.or_false _
    · have htook : tookSome (.ok n) = false := decide_eq_false hn
      refine Or.inr ⟨htook, ⟨buf.take n, List.take_prefix _ _, io.taken_write h⟩, hflushed, ?_⟩
      rw [hfailed, htook]
      exact Bool.or_true _

variable (io)

/-- The loop writes the whole buffer, or breaks off. -/
theorem AsyncWrite.writeLoop_spec {fuel : ℕ} {w : W} {buf : List UInt8}
    (hfuel : buf.length ≤ fuel) :
    (∀ w', io.writeLoop fuel w buf = (.ok (), w') → io.Wrote w w' buf) ∧
      ∀ e w', io.writeLoop fuel w buf = (.error e, w') → io.BrokeOff w w' buf := by
  induction fuel generalizing w buf with
  | zero =>
    obtain rfl := List.length_eq_zero_iff.1 (Nat.le_zero.1 hfuel)
    constructor
    · intro w' h
      cases h
      exact AsyncWrite.Wrote.refl w
    · intro e w' h
      cases h
  | succ fuel ih =>
    unfold AsyncWrite.writeLoop
    by_cases hbuf : buf = []
    · rw [if_pos hbuf]
      constructor
      · intro w' h
        cases h
        rw [hbuf]
        exact AsyncWrite.Wrote.refl w
      · intro e w' h
        cases h
    · rw [if_neg hbuf]
      rcases hw : io.write w buf with ⟨r, w₁⟩
      rcases AsyncWrite.write_cases hbuf hw with ⟨n, rfl, hn, hle, hwrote⟩ | ⟨htook, hbroke⟩
      · dsimp only
        rw [if_neg (by omega)]
        obtain ⟨hok, herr⟩ := @ih w₁ (buf.drop n) (by rw [List.length_drop]; omega)
        constructor
        · intro w' h
          have := hwrote.trans (hok w' h)
          rwa [List.take_append_drop] at this
        · intro e w' h
          have := hwrote.brokeOff (herr e w' h)
          rwa [List.take_append_drop] at this
      · cases r with
        | error e =>
          constructor
          · intro w' h
            cases h
          · intro e' w' h
            cases h
            exact hbroke
        | ok n =>
          have hzero : n = 0 := Nat.eq_zero_of_not_pos (of_decide_eq_false htook)
          dsimp only
          rw [if_pos hzero]
          constructor
          · intro w' h
            cases h
          · intro e w' h
            cases h
            exact hbroke

/-- An operation of the session's output that writes `bs`: it writes all of them, or returns the
error of stdout when that fails; it commits nothing. -/
structure WritesOut (o : SessionOutput W) (bs : List UInt8)
    (res : Except Abort Unit × SessionOutput W) : Prop where
  ok : ∀ o', res = (.ok (), o') → io.Wrote o.writer o'.writer bs ∧ o'.received = o.received
  error : ∀ e o', res = (.error e, o') →
    IsOutputError e ∧ io.BrokeOff o.writer o'.writer bs ∧ o'.received = o.received

theorem SessionOutput.write_writesOut (o : SessionOutput W) (piece : Segment UInt8) :
    WritesOut io o (pieceBytes piece) (o.write io.stdout piece) := by
  obtain ⟨hok, herr⟩ := AsyncWrite.writeLoop_spec io (w := o.writer)
    (Nat.le_refl (pieceBytes piece).length)
  unfold SessionOutput.write
  rcases hw : io.stdout.writeAll o.writer piece with ⟨e | u, w'⟩
  · constructor
    · intro o' h
      cases h
    · intro e' o' h
      cases h
      exact ⟨⟨e, rfl⟩, herr e w' hw, rfl⟩
  · constructor
    · intro o' h
      cases h
      exact ⟨hok w' hw, rfl⟩
    · intro e o' h
      cases h

theorem SessionOutput.flush_writesOut (o : SessionOutput W) :
    WritesOut io o [] (o.flush io.stdout) := by
  have htaken := io.taken_flush o.writer
  have hflushed := io.flushed_flush o.writer
  have hfailed := io.failed_flush o.writer
  rw [show io.flush o.writer = io.stdout.flush o.writer from rfl] at htaken hflushed hfailed
  unfold SessionOutput.flush
  rcases hf : io.stdout.flush o.writer with ⟨e | u, w'⟩
  · rw [hf] at htaken hflushed hfailed
    constructor
    · intro o' h
      cases h
    · intro e' o' h
      cases h
      refine ⟨⟨e, rfl⟩, ⟨⟨[], List.nil_prefix, ?_⟩, hflushed, ?_⟩, rfl⟩
      · rw [List.append_nil]
        exact htaken
      · exact hfailed.trans (Bool.or_true _)
  · rw [hf] at htaken hflushed hfailed
    constructor
    · intro o' h
      cases h
      refine ⟨⟨?_, hflushed, ?_⟩, rfl⟩
      · rw [List.append_nil]
        exact htaken
      · exact hfailed.trans (Bool.or_false _)
    · intro e o' h
      cases h

/-- A flush that succeeds leaves stdout at rest. -/
theorem SessionOutput.atRest_of_flush {o o' : SessionOutput W} (hfine : io.failed o.writer = false)
    (h : o.flush io.stdout = (.ok (), o')) : io.AtRest o'.writer := by
  obtain ⟨hwrote, -⟩ := (SessionOutput.flush_writesOut io o).ok o' h
  refine ⟨hwrote.failed.trans hfine, ?_⟩
  unfold SessionOutput.flush at h
  split at h
  · rename_i w' hflush
    cases h
    exact io.flushed_of_ok hfine hflush
  · cases h

/-- One operation, and another if it succeeds. -/
def andThen (res : Except Abort Unit × SessionOutput W)
    (next : SessionOutput W → Except Abort Unit × SessionOutput W) :
    Except Abort Unit × SessionOutput W :=
  match res with
  | (.error e, o) => (.error e, o)
  | (.ok (), o) => next o

theorem WritesOut.andThen {io : AsyncWrite W} {o : SessionOutput W} {a b : List UInt8}
    {res : Except Abort Unit × SessionOutput W}
    {next : SessionOutput W → Except Abort Unit × SessionOutput W} (h : WritesOut io o a res)
    (h' : ∀ o₁, WritesOut io o₁ b (next o₁)) :
    WritesOut io o (a ++ b) (andThen res next) := by
  rcases res with ⟨e | u, o₁⟩
  · obtain ⟨hout, hbroke, hrec⟩ := h.error e o₁ rfl
    constructor
    · intro o' heq
      cases heq
    · intro e' o' heq
      cases heq
      exact ⟨hout, hbroke.append b, hrec⟩
  · obtain ⟨hwrote, hrec⟩ := h.ok o₁ rfl
    constructor
    · intro o' heq
      obtain ⟨hwrote', hrec'⟩ := (h' o₁).ok o' heq
      exact ⟨hwrote.trans hwrote', hrec'.trans hrec⟩
    · intro e o' heq
      obtain ⟨hout, hbroke, hrec'⟩ := (h' o₁).error e o' heq
      exact ⟨hout, hwrote.brokeOff hbroke, hrec'.trans hrec⟩

theorem SessionOutput.writePieces_writesOut (o : SessionOutput W)
    (pieces : List (Segment UInt8)) :
    WritesOut io o (shownBytes pieces) (o.writePieces io.stdout pieces) := by
  induction pieces generalizing o with
  | nil =>
    constructor
    · intro o' h
      cases h
      exact ⟨AsyncWrite.Wrote.refl _, rfl⟩
    · intro e o' h
      cases h
  | cons piece pieces ih =>
    have hsteps : o.writePieces io.stdout (piece :: pieces) =
        andThen (o.write io.stdout piece) fun o => o.writePieces io.stdout pieces := by
      rw [SessionOutput.writePieces]
      rcases o.write io.stdout piece with ⟨_ | _, _⟩ <;> rfl
    rw [hsteps, shownBytes_cons]
    exact (SessionOutput.write_writesOut io o piece).andThen ih

/-- Everything is written and flushed, and then committed; or stdout fails on the way, and nothing
is committed. -/
theorem SessionOutput.commit_cases (o : SessionOutput W) (pieces : List (Segment UInt8))
    (end_ : UInt64) (hfine : io.failed o.writer = false) :
    (∃ o', o.commit io.stdout pieces end_ = (.ok (), o') ∧
      io.taken o'.writer = io.taken o.writer ++ shownBytes pieces ∧ io.AtRest o'.writer ∧
      o'.received = end_) ∨
    ∃ e o', o.commit io.stdout pieces end_ = (.error e, o') ∧ IsOutputError e ∧
      io.BrokeOff o.writer o'.writer (shownBytes pieces) ∧ o'.received = o.received := by
  have hwrites := SessionOutput.writePieces_writesOut io o pieces
  unfold SessionOutput.commit
  rcases hres : o.writePieces io.stdout pieces with ⟨e | u, o₁⟩
  · exact Or.inr ⟨e, o₁, rfl, hwrites.error e o₁ hres⟩
  · obtain ⟨hwrote, hrec⟩ := hwrites.ok o₁ hres
    have hflushes := SessionOutput.flush_writesOut io o₁
    dsimp only
    rcases hflush : o₁.flush io.stdout with ⟨e | ⟨⟩, o₂⟩
    · obtain ⟨hout, hbroke, hrec'⟩ := hflushes.error e o₂ hflush
      refine Or.inr ⟨e, o₂, rfl, hout, ?_, hrec'.trans hrec⟩
      have := hwrote.brokeOff hbroke
      rwa [List.append_nil] at this
    · obtain ⟨hempty, -⟩ := hflushes.ok o₂ hflush
      refine Or.inl ⟨_, rfl, ?_, ?_, rfl⟩
      · have := (hwrote.trans hempty).taken
        rwa [List.append_nil] at this
      · have hrest : io.AtRest o₂.writer :=
          SessionOutput.atRest_of_flush io (hwrote.failed.trans hfine) hflush
        exact hrest

end Writes

/-! ### A frame on a stdout, and on the recording one -/

/-- Behind what stdout had taken at first, it has taken and flushed what `m` has recorded, nothing
has failed, and as much is committed. -/
structure Mirrors (io : AsyncWrite W) (base : List UInt8) (o : SessionOutput W)
    (m : SessionOutput (List (Segment UInt8))) : Prop where
  atRest : io.AtRest o.writer
  taken : io.taken o.writer = base ++ shownBytes m.writer
  received : o.received = m.received

/-- Stdout has failed: behind what `m` has recorded, which is flushed, it has taken a part of the
output of the next frame, `offset` and `data`, and that frame is not committed. -/
structure Torn (io : AsyncWrite W) (base : List UInt8) (o : SessionOutput W)
    (m : SessionOutput (List (Segment UInt8))) (offset : UInt64) (data : List UInt8) : Prop where
  failed : io.failed o.writer = true
  flushed : base ++ shownBytes m.writer <+: io.flushed o.writer
  taken : ∃ part, part <+: shownBytes (acceptedPieces m.received offset data) ∧
    io.taken o.writer = base ++ shownBytes m.writer ++ part
  received : o.received = m.received

section Accept

variable {io : AsyncWrite W} {base : List UInt8} {o : SessionOutput W}
  {m : SessionOutput (List (Segment UInt8))}

/-- `accept` commits a whole frame, or fails with the error of stdout and commits nothing. -/
theorem Mirrors.accept (h : Mirrors io base o m) {offset : UInt64} {data : List UInt8}
    (hbound : (Frame.output offset data).InBounds) :
    (∃ o', o.accept io.stdout offset data = (.ok (), o') ∧
      Mirrors io base o' (m.accept recording offset data).2) ∨
    ∃ e o', o.accept io.stdout offset data = (.error e, o') ∧ IsOutputError e ∧
      Torn io base o' m offset data := by
  have hend := toNat_ofNat_of_lt hbound.2
  have hrec := h.received
  rcases Nat.lt_or_ge o.received.toNat (offset.toNat + data.length) with hnew | hold
  · rw [o.accept_of_lt io.stdout hend (by omega), m.accept_recording hend (by rw [← hrec]; omega)]
    rcases SessionOutput.commit_cases io o (acceptedPieces o.received offset data)
        (UInt64.ofNat (offset.toNat + data.length)) h.atRest.failed with
      ⟨o', hacc, htaken, hrest, hreceived⟩ | ⟨e, o', hacc, hout, hbroke, hreceived⟩
    · refine Or.inl ⟨o', hacc, hrest, ?_, hreceived⟩
      rw [htaken, h.taken, shownBytes_append, List.append_assoc, hrec]
    · obtain ⟨part, hpart, htaken⟩ := hbroke.taken
      have hflushed := hbroke.flushed
      rw [hrec] at hpart
      rw [h.atRest.flushed, h.taken] at hflushed
      refine Or.inr ⟨e, o', hacc, hout, hbroke.failed, hflushed, ⟨part, hpart, ?_⟩,
        hreceived.trans hrec⟩
      rw [htaken, h.taken]
  · rw [o.accept_of_le io.stdout hold, m.accept_of_le recording (by rw [← hrec]; exact hold)]
    exact Or.inl ⟨o, rfl, h⟩

end Accept

/-! ### The frames accepted -/

/-- The calls that reach beyond all before them; `accept` drops the others. -/
def newCalls : ℕ → List (UInt64 × List UInt8) → List (UInt64 × List UInt8)
  | _, [] => []
  | received, call :: calls =>
    if received < callEnd call then call :: newCalls (callEnd call) calls
    else newCalls received calls

/-- The end of the last call. -/
def lastEnd (received : ℕ) (calls : List (UInt64 × List UInt8)) : ℕ :=
  (calls.map callEnd).getLast?.getD received

theorem lastEnd_cons (received : ℕ) (call : UInt64 × List UInt8)
    (calls : List (UInt64 × List UInt8)) :
    lastEnd received (call :: calls) = lastEnd (callEnd call) calls := by
  unfold lastEnd
  rw [List.map_cons, List.getLast?_cons, Option.getD_some]

/-- A payload within the 64-bit offsets. -/
def CallInBounds (call : UInt64 × List UInt8) : Prop := call.1.toNat + call.2.length < 2 ^ 64

/-- One call on the recording stdout. -/
theorem accept_recording_cases (m : SessionOutput (List (Segment UInt8)))
    {call : UInt64 × List UInt8} (hbound : CallInBounds call) :
    (m.received.toNat < callEnd call ∧
      m.accept recording call.1 call.2 = (.ok (),
        ⟨m.writer ++ acceptedPieces m.received call.1 call.2, UInt64.ofNat (callEnd call)⟩) ∧
      (UInt64.ofNat (callEnd call)).toNat = callEnd call) ∨
    (callEnd call ≤ m.received.toNat ∧ m.accept recording call.1 call.2 = (.ok (), m)) := by
  have hbound' : call.1.toNat + call.2.length < 2 ^ 64 := hbound
  have hcall : callEnd call = call.1.toNat + call.2.length := if_pos hbound'
  rw [hcall]
  have hend := toNat_ofNat_of_lt hbound'
  rcases Nat.lt_or_ge m.received.toNat (call.1.toNat + call.2.length) with hnew | hold
  · exact Or.inl ⟨hnew, m.accept_recording hend (by omega), hend⟩
  · exact Or.inr ⟨hold, m.accept_of_le recording hold⟩

/-- The calls dropped change nothing, and what is committed is the end of the last of the
others. -/
theorem acceptAll_newCalls {calls : List (UInt64 × List UInt8)}
    (hbound : ∀ call ∈ calls, CallInBounds call) (m : SessionOutput (List (Segment UInt8))) :
    m.acceptAll recording calls =
        m.acceptAll recording (newCalls m.received.toNat calls) ∧
      (m.acceptAll recording calls).received.toNat =
        lastEnd m.received.toNat (newCalls m.received.toNat calls) := by
  induction calls generalizing m with
  | nil => exact ⟨rfl, rfl⟩
  | cons call calls ih =>
    have hrest := fun c hc => hbound c (List.mem_cons_of_mem _ hc)
    have hstep : ∀ calls, m.acceptAll recording (call :: calls) =
        (m.accept recording call.1 call.2).2.acceptAll recording calls := fun _ => rfl
    rcases accept_recording_cases m (hbound call List.mem_cons_self) with
      ⟨hnew, hacc, hend⟩ | ⟨hold, hacc⟩
    · obtain ⟨hall, hrec⟩ := ih hrest (m.accept recording call.1 call.2).2
      rw [newCalls, if_pos hnew, hstep, hstep, lastEnd_cons]
      rw [hacc] at hall hrec ⊢
      dsimp only at hall hrec
      rw [hend] at hall hrec
      exact ⟨hall, hrec⟩
    · rw [newCalls, if_neg (Nat.not_lt.2 hold), hstep, hacc]
      exact ih hrest m

/-- What a recording covers is what is committed. -/
theorem span_acceptAll {calls : List (UInt64 × List UInt8)}
    (hbound : ∀ call ∈ calls, CallInBounds call) {m : SessionOutput (List (Segment UInt8))}
    (hm : span m.writer = m.received.toNat) :
    span (m.acceptAll recording calls).writer = (m.acceptAll recording calls).received.toNat := by
  induction calls generalizing m with
  | nil => exact hm
  | cons call calls ih =>
    have hrest := fun c hc => hbound c (List.mem_cons_of_mem _ hc)
    have hcall : callEnd call = call.1.toNat + call.2.length :=
      if_pos (hbound call List.mem_cons_self)
    show span ((m.accept recording call.1 call.2).2.acceptAll recording calls).writer = _
    apply ih hrest
    rcases accept_recording_cases m (hbound call List.mem_cons_self) with
      ⟨hnew, hacc, hend⟩ | ⟨hold, hacc⟩
    · rw [hacc]
      dsimp only
      rw [span_append, hend, hm, span_acceptedPieces (by rw [← hcall]; exact hnew), ← hcall]
      omega
    · rw [hacc]
      exact hm

/-! ### The reader -/

/-- Where stdout is while `client_reader` goes on, and once it has returned. -/
def StdoutAt (io : AsyncWrite W) (base : List UInt8) (m₀ : SessionOutput (List (Segment UInt8)))
    (reads : List Frame) (o : SessionOutput W) : ReaderPhase → Prop
  | .accepting offset data => ∃ rs, reads = rs ++ [.output offset data] ∧
    Mirrors io base o (m₀.acceptAll recording (outputCalls rs))
  | .returned (.error (.fatal (.output _))) => ∃ rs offset data,
    reads = rs ++ [.output offset data] ∧
      Torn io base o (m₀.acceptAll recording (outputCalls rs)) offset data
  | .selecting | .ponging | .returned (.ok _) | .returned (.error (.fatal (.protocol _)))
  | .returned (.error .panicked) =>
    Mirrors io base o (m₀.acceptAll recording (outputCalls reads))

/-- The reader has read a prefix of the wire, within the bounds of the codec. -/
structure Reading (A : Aead Key) (wire : List UInt8) (opener : Opener Key)
    (s : ClientReader Key W) : Prop where
  prefix_ : ∃ r o, readN A s.reads.length wire opener = (.ok s.reads, r, o) ∧
    (s.phase.isReturned = false → s.wire = r ∧ s.opener = o)
  inBounds : ∀ f ∈ s.reads, f.InBounds

section Reader

variable {A : Aead Key} {io : AsyncWrite W} {base : List UInt8}
  {m₀ : SessionOutput (List (Segment UInt8))} {wire : List UInt8} {opener : Opener Key}
  {s s' : ClientReader Key W}

theorem Reading.step {io : Stdout W} (h : Reading A wire opener s) {e : ReaderEvent}
    (hstep : readerStep A io s e = some s') : Reading A wire opener s' := by
  obtain ⟨r, o, hread, hnext⟩ := h.prefix_
  cases e with
  | writerReturns wo =>
    obtain ⟨pongs, stopped, rfl, -⟩ := readerStep_writer (Or.inr ⟨wo, rfl⟩) hstep
    exact ⟨⟨r, o, hread, hnext⟩, h.inBounds⟩
  | takePong =>
    obtain ⟨pongs, stopped, rfl, -⟩ := readerStep_writer (Or.inl rfl) hstep
    exact ⟨⟨r, o, hread, hnext⟩, h.inBounds⟩
  | select =>
    obtain ⟨hphase, hcase⟩ := readerStep_select hstep
    obtain ⟨hw, ho⟩ := hnext (by rw [hphase]; rfl)
    rcases hcase with ⟨-, rfl⟩ | ⟨-, f, wire', opener', hframe, rfl⟩ |
      ⟨-, e, wire', opener', -, rfl⟩
    · exact ⟨⟨r, o, hread, nofun⟩, h.inBounds⟩
    · rw [hw, ho] at hframe
      refine ⟨⟨wire', opener', ?_, fun _ => ⟨rfl, rfl⟩⟩, ?_⟩
      · dsimp only
        rw [List.length_append, List.length_singleton]
        exact readN_concat hread hframe
      · intro g hg
        rcases List.mem_append.1 hg with hg | hg
        · exact h.inBounds g hg
        · obtain ⟨ct, pt, -, hdec⟩ := readFrame_eq_ok hframe
          rw [List.mem_singleton.1 hg]
          exact Frame.inBounds_of_decode hdec
    · exact ⟨⟨r, o, hread, nofun⟩, h.inBounds⟩
  | accept =>
    obtain ⟨offset, data, hphase, ⟨output, -, rfl⟩ | ⟨e, output, -, rfl⟩⟩ := readerStep_accept hstep
    · exact ⟨⟨r, o, hread, fun _ => hnext (by rw [hphase]; rfl)⟩, h.inBounds⟩
    · exact ⟨⟨r, o, hread, nofun⟩, h.inBounds⟩
  | pong =>
    obtain ⟨hphase, ⟨-, rfl⟩ | ⟨-, rfl⟩⟩ := readerStep_pong hstep
    · exact ⟨⟨r, o, hread, nofun⟩, h.inBounds⟩
    · exact ⟨⟨r, o, hread, fun _ => hnext (by rw [hphase]; rfl)⟩, h.inBounds⟩

/-- A frame read and not yet looked at: an `Output` is to be accepted, and any other frame leaves
stdout as it is. -/
theorem StdoutAt.onFrame {reads : List Frame} {o : SessionOutput W} (f : Frame)
    (h : Mirrors io base o (m₀.acceptAll recording (outputCalls reads))) :
    StdoutAt io base m₀ (reads ++ [f]) o (.onFrame f) := by
  have hother : outputCalls [f] = [] →
      Mirrors io base o (m₀.acceptAll recording (outputCalls (reads ++ [f]))) := by
    intro hf
    rw [outputCalls_append, hf, List.append_nil]
    exact h
  cases f with
  | output offset data => exact ⟨reads, rfl, h⟩
  | _ => exact hother rfl

theorem StdoutAt.step (h : StdoutAt io base m₀ s.reads s.output s.phase)
    (hbound : ∀ f ∈ s.reads, f.InBounds) {e : ReaderEvent}
    (hstep : readerStep A io.stdout s e = some s') :
    StdoutAt io base m₀ s'.reads s'.output s'.phase := by
  cases e with
  | writerReturns wo =>
    obtain ⟨pongs, stopped, rfl, -⟩ := readerStep_writer (Or.inr ⟨wo, rfl⟩) hstep
    exact h
  | takePong =>
    obtain ⟨pongs, stopped, rfl, -⟩ := readerStep_writer (Or.inl rfl) hstep
    exact h
  | select =>
    obtain ⟨hphase, hcase⟩ := readerStep_select hstep
    rw [hphase] at h
    rcases hcase with ⟨-, rfl⟩ | ⟨-, f, wire', opener', -, rfl⟩ | ⟨-, e, wire', opener', -, rfl⟩
    · exact h
    · exact StdoutAt.onFrame f h
    · exact h
  | accept =>
    -- not interrupted by a stop signal
    obtain ⟨offset, data, hphase, hcase⟩ := readerStep_accept hstep
    rw [hphase] at h
    obtain ⟨rs, hreads, hmirrors⟩ := h
    have hin : (Frame.output offset data).InBounds := hbound _ (by rw [hreads]; simp)
    have hcalls : m₀.acceptAll recording (outputCalls s.reads) =
        ((m₀.acceptAll recording (outputCalls rs)).accept recording offset data).2 := by
      rw [hreads, outputCalls_append, SessionOutput.acceptAll_append]
      rfl
    rcases hmirrors.accept hin with ⟨o', hacc, hm⟩ | ⟨e, o', hacc, ⟨text, rfl⟩, htorn⟩
    · rcases hcase with ⟨output, hacc', rfl⟩ | ⟨e, output, hacc', rfl⟩
      · rw [hacc] at hacc'
        cases hacc'
        show Mirrors io base o' (m₀.acceptAll recording (outputCalls s.reads))
        rw [hcalls]
        exact hm
      · rw [hacc] at hacc'
        cases hacc'
    · rcases hcase with ⟨output, hacc', rfl⟩ | ⟨e, output, hacc', rfl⟩
      · rw [hacc] at hacc'
        cases hacc'
      · rw [hacc] at hacc'
        cases hacc'
        exact ⟨rs, offset, data, hreads, htorn⟩
  | pong =>
    obtain ⟨hphase, hcase⟩ := readerStep_pong hstep
    rw [hphase] at h
    rcases hcase with ⟨-, rfl⟩ | ⟨-, rfl⟩
    · exact h
    · exact h

/-- Every run of the reader, on every stdout. -/
theorem reader_run {o₀ : SessionOutput W} (h : Mirrors io base o₀ m₀) {es : List ReaderEvent}
    (hrun : (readerSystem A io.stdout wire opener o₀).run (.new wire opener o₀) es = some s) :
    Reading A wire opener s ∧ StdoutAt io base m₀ s.reads s.output s.phase := by
  refine System.run_invariant (I := fun s : ClientReader Key W =>
    Reading A wire opener s ∧ StdoutAt io base m₀ s.reads s.output s.phase) ?_ ⟨⟨?_, ?_⟩, ?_⟩ hrun
  · rintro s e s' ⟨hreading, hstdout⟩ hstep
    exact ⟨hreading.step hstep, hstdout.step hreading.inBounds hstep⟩
  · exact ⟨wire, opener, rfl, fun _ => ⟨rfl, rfl⟩⟩
  · intro f hf
    cases hf
  · exact h

end Reader

/-! ### The session -/

section Session

variable (A : Aead Key) (hkdf : List UInt8 → List UInt8 → List UInt8 → Key) (psk : Psk)
  (io : Stdout W)

/-- The frames that `client_reader` takes from the connection of an attempt. -/
def attemptReads (output : SessionOutput W) (a : Attempt) : List Frame :=
  match helloExchange A hkdf psk output.received a with
  | .error _ => []
  | .ok (wire, opener) =>
    match a.resizeFails with
    | some _ => []
    | none =>
      match (readerSystem A io wire opener output).run (.new wire opener output) a.serving with
      | none => []
      | some s => s.reads

/-- The frames taken in a run of `drive`. -/
def sessionReads (d : Drive W) : List Attempt → List Frame
  | [] => []
  | a :: as => attemptReads A hkdf psk io d.output a ++
    match driveStep A hkdf psk io d a with
    | none => []
    | some d' => sessionReads d' as

end Session

/-- The frames `reads` taken so far are within the bounds; either nothing has failed, and their
output is on stdout and committed, or stdout has failed with the last of them, and `drive` has
returned its error. -/
structure DriveAt (io : AsyncWrite W) (base : List UInt8) (reads : List Frame) (d : Drive W) :
    Prop where
  inBounds : ∀ f ∈ reads, f.InBounds
  stdout :
    Mirrors io base d.output ((SessionOutput.new []).acceptAll recording (outputCalls reads)) ∨
    ∃ text rs offset data, d.returned = some (.error (.abort (.fatal (.output text)))) ∧
      reads = rs ++ [.output offset data] ∧ Torn io base d.output
        ((SessionOutput.new []).acceptAll recording (outputCalls rs)) offset data

section Session

variable {A : Aead Key} {hkdf : List UInt8 → List UInt8 → List UInt8 → Key} {psk : Psk}

/-- `connect_once` leaves stdout as it is, or to the reader. -/
theorem connectOnce_output {io : Stdout W} {output output' : SessionOutput W} {a : Attempt}
    {result : Except ClientError Outcome}
    (h : connectOnce A hkdf psk io output a = some (result, output')) :
    (output' = output ∧ attemptReads A hkdf psk io output a = []) ∨ ∃ wire opener s res,
      (readerSystem A io wire opener output).run (.new wire opener output) a.serving = some s ∧
      s.output = output' ∧ attemptReads A hkdf psk io output a = s.reads ∧
      s.phase = .returned res ∧ ∀ e, res = .error e → result = .error (.abort e) := by
  unfold connectOnce at h
  unfold attemptReads
  rcases hhello : helloExchange A hkdf psk output.received a with e | ⟨wire, opener⟩
  · rw [hhello] at h
    cases h
    exact Or.inl ⟨rfl, rfl⟩
  · rw [hhello] at h
    dsimp only at h ⊢
    cases hresize : a.resizeFails with
    | some e =>
      rw [hresize] at h
      cases h
      exact Or.inl ⟨rfl, rfl⟩
    | none =>
      rw [hresize] at h
      dsimp only at h ⊢
      cases hrun : (readerSystem A io wire opener output).run (.new wire opener output)
          a.serving with
      | none => rw [hrun] at h; cases h
      | some s =>
        rw [hrun] at h
        dsimp only at h
        refine Or.inr ⟨wire, opener, s, ?_⟩
        cases hphase : s.phase with
        | returned ro =>
          refine ⟨ro, hrun, ?_⟩
          cases ro with
          | error e =>
            rw [ClientReader.result_error hphase] at h
            cases h
            refine ⟨rfl, rfl, rfl, ?_⟩
            intro e' he
            cases he
            rfl
          | ok out =>
            obtain ⟨o, ho⟩ := ClientReader.result_ok hphase
            rw [ho] at h
            cases h
            exact ⟨rfl, rfl, rfl, nofun⟩
        | _ =>
          rw [ClientReader.result_of_not_returned (by rw [hphase]; rfl)] at h
          cases h

/-- A fatal error of stdout is returned by `drive`. -/
theorem driveStep_fatal {io : Stdout W} {d d' : Drive W} {a : Attempt} {f : FatalSessionError}
    {output : SessionOutput W}
    (hconn : connectOnce A hkdf psk io d.output a = some (.error (.abort (.fatal f)), output))
    (hstep : driveStep A hkdf psk io d a = some d') :
    d'.returned = some (.error (.abort (.fatal f))) := by
  obtain ⟨-, result, output', hconn', hcase⟩ := driveStep_cases hstep
  rw [hconn] at hconn'
  cases hconn'
  rcases hcase with ⟨o, ho, -, -⟩ | ⟨ho, -⟩ | ⟨e, he, -, rfl⟩ | ⟨e, he, -, hnot, -⟩
  · cases ho
  · cases ho
  · cases he
    rfl
  · cases he
    cases hnot

/-- One iteration of `drive` commits the frames of its connection, or returns the error of
stdout. -/
theorem DriveAt.step {io : AsyncWrite W} {base : List UInt8} {reads : List Frame} {d d' : Drive W}
    {a : Attempt} (h : DriveAt io base reads d)
    (hstep : driveStep A hkdf psk io.stdout d a = some d') :
    DriveAt io base (reads ++ attemptReads A hkdf psk io.stdout d.output a) d' := by
  obtain ⟨hret, result, output, hconn, hcase⟩ := driveStep_cases hstep
  have houtput : d'.output = output := by
    rcases hcase with ⟨o, -, -, rfl⟩ | ⟨-, rfl⟩ | ⟨e, -, -, rfl⟩ | ⟨e, -, -, -, rfl⟩
    all_goals rfl
  have hmirrors : Mirrors io base d.output
      ((SessionOutput.new []).acceptAll recording (outputCalls reads)) := by
    rcases h.stdout with hm | ⟨text, rs, offset, data, hr, -⟩
    · exact hm
    · rw [hret] at hr
      cases hr
  rcases connectOnce_output hconn with ⟨hsame, hreads⟩ |
    ⟨wire, opener, s, res, hrun, hs, hreads, hphase, herror⟩
  · rw [hreads, List.append_nil]
    refine ⟨h.inBounds, Or.inl ?_⟩
    rw [houtput, hsame]
    exact hmirrors
  · obtain ⟨hreading, hat⟩ := reader_run hmirrors hrun
    rw [hphase] at hat
    have hall : ∀ rs, ((SessionOutput.new []).acceptAll recording (outputCalls reads)).acceptAll
        recording (outputCalls rs) =
          (SessionOutput.new []).acceptAll recording (outputCalls (reads ++ rs)) := by
      intro rs
      rw [outputCalls_append, SessionOutput.acceptAll_append]
    rw [hreads]
    refine ⟨?_, ?_⟩
    · intro f hf
      rcases List.mem_append.1 hf with hf | hf
      · exact h.inBounds f hf
      · exact hreading.inBounds f hf
    · rw [houtput, ← hs, ← hall]
      cases res with
      | ok out => exact Or.inl hat
      | error e =>
        cases e with
        | panicked => exact Or.inl hat
        | fatal f =>
          cases f with
          | protocol what => exact Or.inl hat
          | output text =>
            obtain ⟨rs, offset, data, hrs, htorn⟩ := hat
            rw [herror _ rfl] at hconn
            refine Or.inr ⟨text, reads ++ rs, offset, data, driveStep_fatal hconn hstep, ?_, ?_⟩
            · rw [hrs, List.append_assoc]
            · rw [← hall]
              exact htorn

theorem DriveAt.run {io : AsyncWrite W} {base : List UInt8} {reads : List Frame} {d d' : Drive W}
    {as : List Attempt} (h : DriveAt io base reads d)
    (hrun : (driveSystem A hkdf psk io.stdout).run d as = some d') :
    DriveAt io base (reads ++ sessionReads A hkdf psk io.stdout d as) d' := by
  induction as generalizing d reads with
  | nil =>
    cases hrun
    rw [sessionReads, List.append_nil]
    exact h
  | cons a as ih =>
    rw [System.run_cons, Option.bind_eq_some_iff] at hrun
    obtain ⟨d₁, h₁, h₂⟩ := hrun
    have hstep : driveStep A hkdf psk io.stdout d a = some d₁ := h₁
    rw [sessionReads, hstep, ← List.append_assoc]
    exact ih (h.step hstep) h₂

/-- Once `drive` has returned, it makes no further attempt. -/
theorem driveStep_returned {io : Stdout W} {d : Drive W} {r : Except ClientError Unit}
    (h : d.returned = some r) (a : Attempt) : driveStep A hkdf psk io d a = none := by
  unfold driveStep
  rw [h]

end Session

/-- The pieces written for the calls of `accept`, from `received` on. -/
def piecesFrom (received : UInt64) (calls : List (UInt64 × List UInt8)) : List (Segment UInt8) :=
  ((SessionOutput.mk [] received).acceptAll recording calls).writer

/-- The terminal shows what it did before and, behind it, exactly the output of `accepted`, and
`received` is the end of the last one of them. -/
structure Whole (io : AsyncWrite W) (o₀ o : SessionOutput W)
    (accepted : List (UInt64 × List UInt8)) : Prop where
  shows_iff : ∀ bs, io.Shows o.writer bs ↔
    bs = io.taken o₀.writer ++ shownBytes (piecesFrom o₀.received accepted)
  received : o.received.toNat = lastEnd o₀.received.toNat accepted

/-- The same, with a part of the output of `next` behind it. -/
structure CutShort (io : AsyncWrite W) (o₀ o : SessionOutput W)
    (accepted : List (UInt64 × List UInt8)) (next : UInt64 × List UInt8) : Prop where
  shows : ∀ bs, io.Shows o.writer bs →
    ∃ part, part <+: shownBytes (acceptedPieces o.received next.1 next.2) ∧
      bs = io.taken o₀.writer ++ shownBytes (piecesFrom o₀.received accepted) ++ part
  received : o.received.toNat = lastEnd o₀.received.toNat accepted

/-- What the frames `reads` have left on stdout: the output of whole frames, or where stdout failed
that of all but the last, and a part of the last. -/
structure Commits (io : AsyncWrite W) (o₀ o : SessionOutput W) (reads : List Frame) : Prop where
  whole : io.failed o.writer = false →
    Whole io o₀ o (newCalls o₀.received.toNat (outputCalls reads))
  cutShort : io.failed o.writer = true → ∃ rs offset data, reads = rs ++ [.output offset data] ∧
    CutShort io o₀ o (newCalls o₀.received.toNat (outputCalls rs)) (offset, data)

theorem callInBounds_of_inBounds {reads : List Frame} (h : ∀ f ∈ reads, f.InBounds)
    {call : UInt64 × List UInt8} (hcall : call ∈ outputCalls reads) : CallInBounds call := by
  obtain ⟨f, hf, hfc⟩ := List.mem_filterMap.1 hcall
  have hin := h f hf
  cases f with
  | output offset data =>
    cases hfc
    exact hin.2
  | _ => cases hfc

theorem Mirrors.whole {io : AsyncWrite W} {o₀ o : SessionOutput W} {reads : List Frame}
    (h : Mirrors io (io.taken o₀.writer) o
      ((SessionOutput.mk [] o₀.received).acceptAll recording (outputCalls reads)))
    (hbound : ∀ f ∈ reads, f.InBounds) :
    Whole io o₀ o (newCalls o₀.received.toNat (outputCalls reads)) := by
  obtain ⟨hall, hrec⟩ := acceptAll_newCalls (fun _ => callInBounds_of_inBounds hbound)
    (SessionOutput.mk [] o₀.received)
  refine ⟨fun bs => ?_, ?_⟩
  · rw [h.atRest.shows_iff, h.taken, hall]
    rfl
  · rw [h.received, hrec]

theorem Torn.cutShort {io : AsyncWrite W} {o₀ o : SessionOutput W} {reads : List Frame}
    {offset : UInt64} {data : List UInt8}
    (h : Torn io (io.taken o₀.writer) o
      ((SessionOutput.mk [] o₀.received).acceptAll recording (outputCalls reads)) offset data)
    (hbound : ∀ f ∈ reads, f.InBounds) :
    CutShort io o₀ o (newCalls o₀.received.toNat (outputCalls reads)) (offset, data) := by
  obtain ⟨hall, hrec⟩ := acceptAll_newCalls (fun _ => callInBounds_of_inBounds hbound)
    (SessionOutput.mk [] o₀.received)
  refine ⟨?_, ?_⟩
  · rintro bs ⟨hle, hge⟩
    obtain ⟨part, hpart, htaken⟩ := h.taken
    obtain ⟨rest, rfl⟩ := h.flushed.trans hle
    rw [htaken, List.prefix_append_right_inj] at hge
    rw [← h.received] at hpart
    refine ⟨rest, hge.trans hpart, ?_⟩
    rw [hall]
    rfl
  · rw [h.received, hrec]

/-- As long as stdout works, what it shows of the output stream is at strictly increasing positions
below the offset that the next attempt requests; once stdout has failed, `drive` has returned the
fatal error and makes no further attempt. -/
structure OnceOnly (A : Aead Key) (hkdf : List UInt8 → List UInt8 → List UInt8 → Key) (psk : Psk)
    (io : AsyncWrite W) (reads : List Frame) (d : Drive W) : Prop where
  positions : io.failed d.output.writer = false →
    (shown 0 (piecesFrom 0 (newCalls 0 (outputCalls reads)))).Pairwise (fun x y => x.2 < y.2) ∧
      ∀ x ∈ shown 0 (piecesFrom 0 (newCalls 0 (outputCalls reads))), x.2 < d.output.received.toNat
  finished : io.failed d.output.writer = true →
    (∃ text, d.returned = some (.error (.abort (.fatal (.output text))))) ∧
      ∀ a, driveStep A hkdf psk io.stdout d a = none

/-- As long as stdout has not failed, it is at the end of a frame. -/
theorem StdoutAt.mirrors {io : AsyncWrite W} {base : List UInt8}
    {m₀ : SessionOutput (List (Segment UInt8))} {o : SessionOutput W} {reads : List Frame}
    {phase : ReaderPhase} (h : StdoutAt io base m₀ reads o phase)
    (hfine : io.failed o.writer = false) :
    ∃ rs, rs <+: reads ∧ Mirrors io base o (m₀.acceptAll recording (outputCalls rs)) := by
  cases phase with
  | accepting offset data =>
    obtain ⟨rs, rfl, hm⟩ := h
    exact ⟨rs, List.prefix_append _ _, hm⟩
  | selecting => exact ⟨reads, List.prefix_rfl, h⟩
  | ponging => exact ⟨reads, List.prefix_rfl, h⟩
  | returned res =>
    cases res with
    | ok out => exact ⟨reads, List.prefix_rfl, h⟩
    | error e =>
      cases e with
      | panicked => exact ⟨reads, List.prefix_rfl, h⟩
      | fatal f =>
        cases f with
        | protocol what => exact ⟨reads, List.prefix_rfl, h⟩
        | output text =>
          obtain ⟨rs, offset, data, -, htorn⟩ := h
          rw [htorn.failed] at hfine
          cases hfine

/-- Stdout has failed if and only if the reader has returned its error. -/
theorem StdoutAt.failed_iff {io : AsyncWrite W} {base : List UInt8}
    {m₀ : SessionOutput (List (Segment UInt8))} {o : SessionOutput W} {reads : List Frame}
    {phase : ReaderPhase} (h : StdoutAt io base m₀ reads o phase) :
    io.failed o.writer = true ↔ ∃ text, phase = .returned (.error (.fatal (.output text))) := by
  have hfine : ∀ {m}, Mirrors io base o m →
      (∀ text, phase ≠ .returned (.error (.fatal (.output text)))) →
      (io.failed o.writer = true ↔
        ∃ text, phase = .returned (.error (.fatal (.output text)))) := by
    intro m hm hne
    rw [hm.atRest.failed]
    constructor
    · intro hfail
      cases hfail
    · rintro ⟨text, htext⟩
      exact absurd htext (hne text)
  cases phase with
  | selecting => exact hfine h fun _ => nofun
  | ponging => exact hfine h fun _ => nofun
  | accepting offset data =>
    obtain ⟨rs, -, hm⟩ := h
    exact hfine hm fun _ => nofun
  | returned res =>
    cases res with
    | ok out => exact hfine h fun _ => nofun
    | error e =>
      cases e with
      | panicked => exact hfine h fun _ => nofun
      | fatal f =>
        cases f with
        | protocol what => exact hfine h fun _ => nofun
        | output text =>
          obtain ⟨rs, offset, data, -, htorn⟩ := h
          exact ⟨fun _ => ⟨text, rfl⟩, fun _ => htorn.failed⟩

/-- What the frames of a session have left on stdout. -/
theorem DriveAt.commits {io : AsyncWrite W} {writer : W} {reads : List Frame} {d : Drive W}
    (h : DriveAt io (io.taken writer) reads d) : Commits io (.new writer) d.output reads := by
  rcases h.stdout with hm | ⟨text, rs, offset, data, -, hreads, htorn⟩
  · have hwhole : Whole io (.new writer) d.output (newCalls 0 (outputCalls reads)) :=
      Mirrors.whole hm h.inBounds
    refine ⟨fun _ => hwhole, ?_⟩
    intro hfail
    rw [hm.atRest.failed] at hfail
    cases hfail
  · refine ⟨?_, ?_⟩
    · intro hfine
      rw [htorn.failed] at hfine
      cases hfine
    · intro _
      have hin : ∀ f ∈ rs, f.InBounds := by
        intro f hf
        apply h.inBounds
        rw [hreads]
        exact List.mem_append_left _ hf
      have hcut : CutShort io (.new writer) d.output (newCalls 0 (outputCalls rs))
          (offset, data) := Torn.cutShort htorn hin
      exact ⟨rs, offset, data, hreads, hcut⟩

theorem DriveAt.onceOnly {A : Aead Key} {hkdf : List UInt8 → List UInt8 → List UInt8 → Key}
    {psk : Psk} {io : AsyncWrite W} {base : List UInt8} {reads : List Frame} {d : Drive W}
    (h : DriveAt io base reads d) : OnceOnly A hkdf psk io reads d := by
  have hcalls : ∀ call ∈ outputCalls reads, CallInBounds call :=
    fun _ => callInBounds_of_inBounds h.inBounds
  refine ⟨?_, ?_⟩
  · intro hfine
    rcases h.stdout with hm | ⟨text, rs, offset, data, -, -, htorn⟩
    · have hall : (SessionOutput.mk [] 0).acceptAll recording (outputCalls reads) =
          (SessionOutput.mk [] 0).acceptAll recording (newCalls 0 (outputCalls reads)) :=
        (acceptAll_newCalls hcalls (SessionOutput.mk [] 0)).1
      have hspan := span_acceptAll hcalls (m := SessionOutput.mk [] 0) rfl
      have hrec : d.output.received =
          ((SessionOutput.mk [] 0).acceptAll recording (outputCalls reads)).received := hm.received
      refine ⟨pairwise_shown 0 _, ?_⟩
      intro x hx
      have hlt := lt_of_mem_shown hx
      unfold piecesFrom at hlt
      rw [hrec, ← hspan, hall]
      omega
    · rw [htorn.failed] at hfine
      cases hfine
  · intro hfail
    rcases h.stdout with hm | ⟨text, rs, offset, data, hret, -, -⟩
    · rw [hm.atRest.failed] at hfail
      cases hfail
    · exact ⟨⟨text, hret⟩, driveStep_returned hret⟩

/-- **The commit of output is atomic.**  Whatever is on the wire and wherever it is cut, whenever
the stop signal fires and however stdout splits its writes, buffers them and fails: as long as
nothing has failed, the terminal shows exactly the output of the first frames read, and `received`
is the end of the last one; when `client_reader` returns `Ok`, that is all of the frames; when
stdout fails, `client_reader` returns the fatal error with `received` at the end of the last frame
flushed; and over a whole session no position of the output is requested and written a second
time. -/
theorem output_commit_atomic (A : Aead Key) (hkdf : List UInt8 → List UInt8 → List UInt8 → Key)
    (psk : Psk) (io : AsyncWrite W) :
    (∀ (wire : List UInt8) (opener : Opener Key) (o₀ : SessionOutput W) (es : List ReaderEvent)
        (s : ClientReader Key W), io.AtRest o₀.writer →
      (readerSystem A io.stdout wire opener o₀).run (.new wire opener o₀) es = some s →
      (∃ r o, readN A s.reads.length wire opener = (.ok s.reads, r, o)) ∧
        (io.failed s.output.writer = false → io.AtRest s.output.writer ∧ ∃ rs, rs <+: s.reads ∧
          Whole io o₀ s.output (newCalls o₀.received.toNat (outputCalls rs))) ∧
        (∀ out, s.phase = .returned (.ok out) →
          Whole io o₀ s.output (newCalls o₀.received.toNat (outputCalls s.reads))) ∧
        (io.failed s.output.writer = true ↔
          ∃ text, s.phase = .returned (.error (.fatal (.output text)))) ∧
        ∀ text, s.phase = .returned (.error (.fatal (.output text))) → ∃ rs offset data,
          s.reads = rs ++ [.output offset data] ∧
            CutShort io o₀ s.output (newCalls o₀.received.toNat (outputCalls rs))
              (offset, data)) ∧
      ∀ (writer : W) (as : List Attempt) (d : Drive W), io.AtRest writer →
        (driveSystem A hkdf psk io.stdout).run (.new writer) as = some d →
        Commits io (.new writer) d.output (sessionReads A hkdf psk io.stdout (.new writer) as) ∧
          OnceOnly A hkdf psk io (sessionReads A hkdf psk io.stdout (.new writer) as) d := by
  constructor
  · intro wire opener o₀ es s hrest hrun
    have hstart : Mirrors io (io.taken o₀.writer) o₀ (SessionOutput.mk [] o₀.received) :=
      ⟨hrest, (List.append_nil _).symm, rfl⟩
    obtain ⟨hreading, hat⟩ := reader_run hstart hrun
    obtain ⟨r, o, hread, -⟩ := hreading.prefix_
    refine ⟨⟨r, o, hread⟩, ?_, ?_, hat.failed_iff, ?_⟩
    · intro hfine
      obtain ⟨rs, hrs, hm⟩ := hat.mirrors hfine
      exact ⟨hm.atRest, rs, hrs, Mirrors.whole hm fun f hf => hreading.inBounds f (hrs.subset hf)⟩
    · intro out hphase
      rw [hphase] at hat
      exact Mirrors.whole hat hreading.inBounds
    · intro text hphase
      rw [hphase] at hat
      obtain ⟨rs, offset, data, hreads, htorn⟩ := hat
      refine ⟨rs, offset, data, hreads, htorn.cutShort ?_⟩
      intro f hf
      apply hreading.inBounds
      rw [hreads]
      exact List.mem_append_left _ hf
  · intro writer as d hrest hrun
    have hstart : DriveAt io (io.taken writer) [] (Drive.new writer) :=
      ⟨nofun, Or.inl ⟨hrest, (List.append_nil _).symm, rfl⟩⟩
    have hat := hstart.run hrun
    rw [List.nil_append] at hat
    exact ⟨hat.commits, hat.onceOnly⟩

/-- A terminal behind a buffer: what the writes have taken, how much of it has gone out, and
whether it has failed. -/
structure Buffered where
  taken : List UInt8
  sent : ℕ
  failed : Bool

/-- It takes one byte at a time and sends nothing before it is flushed; the terminal breaks after
`limit` bytes, and the flush is what says so. -/
def buffered (limit : ℕ) : AsyncWrite Buffered where
  write w buf := (.ok (min 1 buf.length), ⟨w.taken ++ buf.take 1, w.sent,
    w.failed || decide (buf.length = 0)⟩)
  flush w :=
    if w.taken.length ≤ limit then (.ok (), ⟨w.taken, w.taken.length, w.failed⟩)
    else (.error "Broken pipe", ⟨w.taken, max w.sent limit, true⟩)
  taken := Buffered.taken
  flushed w := w.taken.take w.sent
  failed := Buffered.failed
  flushed_isPrefix w := List.take_prefix _ _
  le_of_write := by
    intro w w' buf n h
    cases h
    exact Nat.min_le_right _ _
  taken_write := by
    intro w w' buf n h
    cases h
    rw [← List.take_eq_take_min]
  taken_write_error := by
    intro w w' buf e h
    cases h
  flushed_write w buf := by
    rw [List.take_append]
    exact List.prefix_append _ _
  taken_flush w := by
    split_ifs <;> rfl
  flushed_flush w := by
    split_ifs
    · rw [List.take_length]
      exact List.take_prefix _ _
    · exact List.take_prefix_take_left (Nat.le_max_left _ _)
  flushed_of_ok := by
    intro w w' _ h
    split_ifs at h
    · cases h
      exact List.take_length
    · cases h
  failed_write := by
    intro w w' buf r hbuf h
    cases h
    have hpos := List.length_pos_iff.2 hbuf
    have htook : tookSome (.ok (min 1 buf.length)) = true := decide_eq_true (by omega)
    rw [htook, decide_eq_false (Nat.ne_of_gt hpos)]
    rfl
  failed_flush w := by
    split_ifs
    · exact (Bool.or_false _).symm
    · exact (Bool.or_true _).symm

/-- Both bytes of the frame are taken, and the flush fails behind the first. -/
theorem output_commit_atomic_broken : ∃ s,
    (readerSystem paddingAead (buffered 1).stdout goodbye (Sealer.new () dirServerToClient).opener
      (.new ⟨[], 0, false⟩)).run (.new goodbye (Sealer.new () dirServerToClient).opener
        (.new ⟨[], 0, false⟩)) [.select, .accept] = some s ∧
    s.output.writer = ⟨[104, 105], 1, true⟩ ∧ s.output.received = 0 ∧
    ∃ rs offset data, s.reads = rs ++ [.output offset data] ∧
      CutShort (buffered 1) (.new ⟨[], 0, false⟩) s.output (newCalls 0 (outputCalls rs))
        (offset, data) :=
  ⟨_, rfl, rfl, rfl, ((output_commit_atomic paddingAead (fun _ _ _ => ()) (Vector.replicate 32 0)
    (buffered 1)).1 goodbye (Sealer.new () dirServerToClient).opener (.new ⟨[], 0, false⟩)
      [.select, .accept] _ ⟨rfl, rfl⟩ rfl).2.2.2.2 "Broken pipe" rfl⟩

end Thther
