import Thther.Lib.Transcript
import Thther.Proto.Frame
import Mathlib.Order.Lattice

/-!
# The client's stdout and its committed offset (`client/session.rs`)

`SessionOutput.accept` writes the new part of one `Output` frame and commits its end.  Stdout is a
parameter: a `Stdout W` over writer states `W`, whose writes and flushes may fail.

A piece handed to `write_all` is a transcript segment: `.gap n` stands for the local notice that
announces `n` missing bytes, `.bytes xs` for remote output.  The tag only tells the two apart;
what reaches the terminal is `pieceBytes`.

* `SessionOutput.accept_overflow`, `accept_of_le`, `accept_of_lt`: what one call does;
* `accept_writes_once`: what any sequence of calls leaves on stdout.
-/

namespace Thther

open Transcript

/-- These errors cannot be repaired by reconnecting to the network. -/
inductive FatalSessionError
  | output (source : String)
  | protocol (what : String)
  deriving DecidableEq

/-- How a step of the client ends other than normally: a fatal error, or a panic. -/
inductive Abort
  | fatal (e : FatalSessionError)
  | panicked
  deriving DecidableEq

/-- The local notice for `n` missing bytes. -/
def gapNotice (n : ℕ) : List UInt8 :=
  ascii s!"\x18\r\n[thther] output gap: {n} bytes unavailable\r\n"

/-- The bytes of a piece handed to `write_all`. -/
def pieceBytes : Segment UInt8 → List UInt8
  | .gap n => gapNotice n
  | .bytes xs => xs

/-- An asynchronous writer: `write_all` and `flush`, with the error text of a failure. -/
structure Stdout (W : Type) where
  writeAll : W → Segment UInt8 → Except String Unit × W
  flush : W → Except String Unit × W

/-- One stdout handle and one committed offset for the entire client session. -/
structure SessionOutput (W : Type) where
  writer : W
  received : UInt64
  deriving DecidableEq

variable {W : Type}

/-- `SessionOutput::new`. -/
def SessionOutput.new (writer : W) : SessionOutput W := { writer, received := 0 }

/-- `self.writer.write_all(piece).await.map_err(FatalSessionError::Output)`. -/
def SessionOutput.write (io : Stdout W) (o : SessionOutput W) (piece : Segment UInt8) :
    Except Abort Unit × SessionOutput W :=
  match io.writeAll o.writer piece with
  | (.ok (), writer) => (.ok (), { o with writer })
  | (.error e, writer) => (.error (.fatal (.output e)), { o with writer })

/-- `self.writer.flush().await.map_err(FatalSessionError::Output)`. -/
def SessionOutput.flush (io : Stdout W) (o : SessionOutput W) :
    Except Abort Unit × SessionOutput W :=
  match io.flush o.writer with
  | (.ok (), writer) => (.ok (), { o with writer })
  | (.error e, writer) => (.error (.fatal (.output e)), { o with writer })

/-- The slice `&data[skip..]`, which panics out of bounds. -/
def sliceFrom (data : List UInt8) (skip : ℕ) : Except Abort (List UInt8) :=
  if skip ≤ data.length then .ok (data.drop skip) else .error .panicked

/-- `SessionOutput::accept`. -/
def SessionOutput.accept (io : Stdout W) (o : SessionOutput W) (offset : UInt64)
    (data : List UInt8) : Except Abort Unit × SessionOutput W :=
  match checkedAdd offset data.length with
  | none => (.error (.fatal (.protocol "output offset overflow")), o)
  | some end_ =>
    let received := o.received
    if end_ ≤ received then (.ok (), o)
    else
      let noticed :=
        if received < offset then o.write io (.gap (offset - received).toNat) else (.ok (), o)
      match noticed with
      | (.error e, o) => (.error e, o)
      | (.ok (), o) =>
        let skip := (saturatingSub received offset).toNat
        match sliceFrom data skip with
        | .error e => (.error e, o)
        | .ok rest =>
          match o.write io (.bytes rest) with
          | (.error e, o) => (.error e, o)
          | (.ok (), o) =>
            match o.flush io with
            | (.error e, o) => (.error e, o)
            | (.ok (), o) => (.ok (), { o with received := end_ })

/-! ### The three outcomes of a call -/

/-- Write pieces one after the other, up to the first failure. -/
def SessionOutput.writePieces (io : Stdout W) (o : SessionOutput W) :
    List (Segment UInt8) → Except Abort Unit × SessionOutput W
  | [] => (.ok (), o)
  | piece :: pieces =>
    match o.write io piece with
    | (.error e, o) => (.error e, o)
    | (.ok (), o) => o.writePieces io pieces

/-- Write pieces, flush, and commit an offset. -/
def SessionOutput.commit (io : Stdout W) (o : SessionOutput W) (pieces : List (Segment UInt8))
    (end_ : UInt64) : Except Abort Unit × SessionOutput W :=
  match o.writePieces io pieces with
  | (.error e, o) => (.error e, o)
  | (.ok (), o) =>
    match o.flush io with
    | (.error e, o) => (.error e, o)
    | (.ok (), o) => (.ok (), { o with received := end_ })

/-- The pieces `accept` writes for a frame reaching beyond `received`. -/
def acceptedPieces (received offset : UInt64) (data : List UInt8) : List (Segment UInt8) :=
  (if received < offset then [.gap (offset - received).toNat] else []) ++
    [.bytes (data.drop (received.toNat - offset.toNat))]

/-- A frame whose end overflows is rejected, and nothing is written. -/
theorem SessionOutput.accept_overflow (io : Stdout W) (o : SessionOutput W) {offset : UInt64}
    {data : List UInt8} (h : 2 ^ 64 ≤ offset.toNat + data.length) :
    o.accept io offset data = (.error (.fatal (.protocol "output offset overflow")), o) := by
  unfold SessionOutput.accept
  rw [checkedAdd_eq_none.2 h]

/-- An old frame changes nothing. -/
theorem SessionOutput.accept_of_le (io : Stdout W) (o : SessionOutput W) {offset : UInt64}
    {data : List UInt8} (h : offset.toNat + data.length ≤ o.received.toNat) :
    o.accept io offset data = (.ok (), o) := by
  have hr := o.received.toNat_lt
  obtain ⟨e, he⟩ : ∃ e, checkedAdd offset data.length = some e := by
    rw [← Option.ne_none_iff_exists', ne_eq, checkedAdd_eq_none]
    omega
  have hle : e ≤ o.received := by
    rw [UInt64.le_iff_toNat_le, checkedAdd_eq_some.1 he]
    exact h
  simp only [SessionOutput.accept, he, if_pos hle]

/-- A frame reaching beyond `received` is written from there on, flushed and committed; the slice
`data[skip..]` is in bounds. -/
theorem SessionOutput.accept_of_lt (io : Stdout W) (o : SessionOutput W) {offset end_ : UInt64}
    {data : List UInt8} (he : end_.toNat = offset.toNat + data.length)
    (h : o.received.toNat < end_.toNat) :
    o.accept io offset data = o.commit io (acceptedPieces o.received offset data) end_ := by
  have hadd : checkedAdd offset data.length = some end_ := checkedAdd_eq_some.2 he
  have hlt : ¬ end_ ≤ o.received := by
    rw [UInt64.le_iff_toNat_le]
    omega
  have hskip : (saturatingSub o.received offset).toNat = o.received.toNat - offset.toNat :=
    toNat_saturatingSub _ _
  have hslice : sliceFrom data (o.received.toNat - offset.toNat) =
      .ok (data.drop (o.received.toNat - offset.toNat)) := if_pos (by omega)
  unfold SessionOutput.accept SessionOutput.commit acceptedPieces
  simp only [hadd, if_neg hlt, hskip, hslice]
  split_ifs with hgap
  · simp only [List.singleton_append, SessionOutput.writePieces]
    rcases o.write io (.gap (offset - o.received).toNat) with ⟨_ | _, o₁⟩
    · rfl
    · dsimp only
      rcases o₁.write io (.bytes (data.drop (o.received.toNat - offset.toNat))) with ⟨_ | _, _⟩ <;>
        rfl
  · simp only [List.nil_append, SessionOutput.writePieces]
    rcases o.write io (.bytes (data.drop (o.received.toNat - offset.toNat))) with ⟨_ | _, _⟩ <;>
      rfl

/-! ### A stdout on which every write succeeds -/

/-- The stdout that records every piece. -/
def recording : Stdout (List (Segment UInt8)) where
  writeAll w piece := (.ok (), w ++ [piece])
  flush w := (.ok (), w)

theorem SessionOutput.writePieces_recording (o : SessionOutput (List (Segment UInt8)))
    (pieces : List (Segment UInt8)) :
    o.writePieces recording pieces = (.ok (), { o with writer := o.writer ++ pieces }) := by
  induction pieces generalizing o with
  | nil => rw [List.append_nil]; rfl
  | cons piece pieces ih =>
    show SessionOutput.writePieces recording { o with writer := o.writer ++ [piece] } pieces = _
    rw [ih, List.append_assoc]
    rfl

/-- A frame reaching beyond `received` is recorded from there on and committed. -/
theorem SessionOutput.accept_recording (o : SessionOutput (List (Segment UInt8)))
    {offset end_ : UInt64} {data : List UInt8} (he : end_.toNat = offset.toNat + data.length)
    (h : o.received.toNat < end_.toNat) :
    o.accept recording offset data =
      (.ok (), ⟨o.writer ++ acceptedPieces o.received offset data, end_⟩) := by
  rw [o.accept_of_lt recording he h, SessionOutput.commit, o.writePieces_recording]
  rfl

/-! ### Any sequence of calls -/

/-- Calls of `accept` in order, whatever each of them returns. -/
def SessionOutput.acceptAll (io : Stdout W) (o : SessionOutput W)
    (calls : List (UInt64 × List UInt8)) : SessionOutput W :=
  calls.foldl (fun o call => (o.accept io call.1 call.2).2) o

/-- The payload of a call is the stretch of the stream `S` at its offset. -/
def AgreesWith (S : ℕ → UInt8) (call : UInt64 × List UInt8) : Prop :=
  ∀ i (h : i < call.2.length), call.2[i] = S (call.1.toNat + i)

/-- The end of a call's payload, or 0 where it overflows. -/
def callEnd (call : UInt64 × List UInt8) : ℕ :=
  if call.1.toNat + call.2.length < 2 ^ 64 then call.1.toNat + call.2.length else 0

/-- The error of stdout. -/
def IsOutputError (e : Abort) : Prop := ∃ text, e = .fatal (.output text)

theorem SessionOutput.write_error {io : Stdout W} {o : SessionOutput W} {piece : Segment UInt8}
    {e : Abort} (h : (o.write io piece).1 = .error e) : IsOutputError e := by
  unfold SessionOutput.write at h
  split at h
  · cases h
  · cases h
    exact ⟨_, rfl⟩

theorem SessionOutput.flush_error {io : Stdout W} {o : SessionOutput W} {e : Abort}
    (h : (o.flush io).1 = .error e) : IsOutputError e := by
  unfold SessionOutput.flush at h
  split at h
  · cases h
  · cases h
    exact ⟨_, rfl⟩

theorem SessionOutput.writePieces_error {io : Stdout W} {o : SessionOutput W}
    {pieces : List (Segment UInt8)} {e : Abort} (h : (o.writePieces io pieces).1 = .error e) :
    IsOutputError e := by
  induction pieces generalizing o with
  | nil => cases h
  | cons piece pieces ih =>
    unfold SessionOutput.writePieces at h
    split at h
    · rename_i e' o₁ hres
      cases h
      exact SessionOutput.write_error (congrArg Prod.fst hres)
    · exact ih h

theorem SessionOutput.commit_error {io : Stdout W} {o : SessionOutput W}
    {pieces : List (Segment UInt8)} {end_ : UInt64} {e : Abort}
    (h : (o.commit io pieces end_).1 = .error e) : IsOutputError e := by
  unfold SessionOutput.commit at h
  split at h
  · rename_i e' o₁ hres
    cases h
    exact SessionOutput.writePieces_error (congrArg Prod.fst hres)
  · split at h
    · rename_i e' o₂ hres
      cases h
      exact SessionOutput.flush_error (congrArg Prod.fst hres)
    · cases h

/-- Where the end of a frame does not overflow, the only errors are those of stdout. -/
theorem SessionOutput.accept_error {io : Stdout W} {o : SessionOutput W} {offset : UInt64}
    {data : List UInt8} (hov : offset.toNat + data.length < 2 ^ 64) {e : Abort}
    (h : (o.accept io offset data).1 = .error e) : IsOutputError e := by
  have hend := toNat_ofNat_of_lt hov
  rcases Nat.lt_or_ge o.received.toNat (offset.toNat + data.length) with hnew | hold
  · rw [o.accept_of_lt io hend (by omega)] at h
    exact SessionOutput.commit_error h
  · rw [o.accept_of_le io hold] at h
    cases h

/-- The slice `data[skip..]` is in bounds, whatever stdout does. -/
theorem SessionOutput.accept_ne_panicked (io : Stdout W) (o : SessionOutput W) (offset : UInt64)
    (data : List UInt8) : (o.accept io offset data).1 ≠ .error .panicked := by
  intro h
  rcases Nat.lt_or_ge (offset.toNat + data.length) (2 ^ 64) with hlt | hov
  · obtain ⟨text, htext⟩ := SessionOutput.accept_error hlt h
    cases htext
  · rw [o.accept_overflow io hov] at h
    cases h

/-- What stdout shows is `S` up to the committed offset, with its gaps announced. -/
structure SessionOutput.Follows (S : ℕ → UInt8)
    (o : SessionOutput (List (Segment UInt8))) : Prop where
  span : Transcript.span o.writer = o.received.toNat
  shown : ∀ x ∈ Transcript.shown 0 o.writer, x.1 = S x.2

theorem SessionOutput.follows_new (S : ℕ → UInt8) : (SessionOutput.new []).Follows S where
  span := rfl
  shown := by
    intro x hx
    cases hx

theorem span_acceptedPieces {received offset : UInt64} {data : List UInt8}
    (h : received.toNat < offset.toNat + data.length) :
    span (acceptedPieces received offset data) =
      offset.toNat + data.length - received.toNat := by
  unfold acceptedPieces
  split_ifs with hgap
  · rw [UInt64.lt_iff_toNat_lt] at hgap
    have hsub := UInt64.toNat_sub_of_le _ _ (UInt64.le_iff_toNat_le.2 (Nat.le_of_lt hgap))
    simp only [List.singleton_append, span_cons, span_nil, Segment.span, List.length_drop]
    omega
  · rw [UInt64.lt_iff_toNat_lt] at hgap
    simp only [List.nil_append, span_cons, span_nil, Segment.span, List.length_drop]
    omega

/-- The pieces of one frame show the frame's bytes at their positions. -/
theorem shown_acceptedPieces {S : ℕ → UInt8} {received offset : UInt64} {data : List UInt8}
    (hS : AgreesWith S (offset, data)) {x : UInt8 × ℕ}
    (hx : x ∈ shown received.toNat (acceptedPieces received offset data)) : x.1 = S x.2 := by
  -- the new bytes stand from the later of the two positions on
  have hbytes : x ∈ (data.drop (received.toNat - offset.toNat)).zipIdx
      (max received.toNat offset.toNat) := by
    unfold acceptedPieces at hx
    split_ifs at hx with hgap
    · rw [UInt64.lt_iff_toNat_lt] at hgap
      have hsub := UInt64.toNat_sub_of_le _ _ (UInt64.le_iff_toNat_le.2 (Nat.le_of_lt hgap))
      have hpos : received.toNat + (offset - received).toNat = max received.toNat offset.toNat := by
        omega
      simp only [List.singleton_append, Transcript.shown, List.append_nil, hpos] at hx
      exact hx
    · rw [UInt64.lt_iff_toNat_lt] at hgap
      simp only [List.nil_append, Transcript.shown, List.append_nil] at hx
      rwa [Nat.max_eq_left (by omega)]
  obtain ⟨hlo, hhi, hget⟩ := List.mem_zipIdx (x := x.1) (i := x.2) hbytes
  rw [List.length_drop] at hhi
  rw [hget, List.getElem_drop, hS]
  congr 1
  dsimp only
  omega

/-- One call follows the stream and moves the committed offset to the later of the two ends. -/
theorem SessionOutput.Follows.accept {S : ℕ → UInt8} {o : SessionOutput (List (Segment UInt8))}
    (h : o.Follows S) {call : UInt64 × List UInt8} (hS : AgreesWith S call) :
    (o.accept recording call.1 call.2).2.Follows S ∧
      (o.accept recording call.1 call.2).2.received.toNat =
        max o.received.toNat (callEnd call) := by
  obtain ⟨offset, data⟩ := call
  unfold callEnd
  dsimp only
  split_ifs with hlt
  · rcases Nat.lt_or_ge o.received.toNat (offset.toNat + data.length) with hnew | hold
    · have hend := toNat_ofNat_of_lt hlt
      rw [o.accept_recording hend (by omega)]
      refine ⟨⟨?_, ?_⟩, ?_⟩
      · show Transcript.span (o.writer ++ acceptedPieces o.received offset data) = _
        rw [span_append, span_acceptedPieces hnew, h.span]
        show _ = (UInt64.ofNat (offset.toNat + data.length)).toNat
        omega
      · intro x hx
        rw [Transcript.shown_append, Nat.zero_add, h.span] at hx
        rcases List.mem_append.1 hx with hx | hx
        · exact h.shown x hx
        · exact shown_acceptedPieces hS hx
      · show (UInt64.ofNat (offset.toNat + data.length)).toNat = _
        omega
    · rw [o.accept_of_le recording hold, Nat.max_eq_left hold]
      exact ⟨h, rfl⟩
  · rw [o.accept_overflow recording (by omega), Nat.max_zero]
    exact ⟨h, rfl⟩

theorem SessionOutput.Follows.acceptAll {S : ℕ → UInt8}
    {o : SessionOutput (List (Segment UInt8))} (h : o.Follows S)
    {calls : List (UInt64 × List UInt8)} (hS : ∀ call ∈ calls, AgreesWith S call) :
    (o.acceptAll recording calls).Follows S ∧
      (o.acceptAll recording calls).received.toNat =
        (calls.map callEnd).foldl max o.received.toNat := by
  induction calls generalizing o with
  | nil => exact ⟨h, rfl⟩
  | cons call calls ih =>
    obtain ⟨hcall, hrec⟩ := h.accept (hS call List.mem_cons_self)
    rw [List.map_cons, List.foldl_cons, ← hrec]
    exact ih hcall fun c hc => hS c (List.mem_cons_of_mem _ hc)

/-- **Each position is written at most once.**  For every sequence of calls whose payloads agree
with one stream `S`, in any order, and every further call: the committed offset is the maximum of
the ends, the bytes written are those of `S` at strictly increasing positions, and with the sizes
of the announced gaps they add up to the committed offset; the further call does not lower it, is
rejected without effect if its end overflows, is dropped if its end is committed, and otherwise
writes the notice for the bytes that are missing before its offset, and then its bytes from the
committed offset on; it never slices out of bounds. -/
theorem accept_writes_once (S : ℕ → UInt8) (calls : List (UInt64 × List UInt8))
    (hS : ∀ call ∈ calls, AgreesWith S call) :
    let o := (SessionOutput.new []).acceptAll recording calls
    o.received.toNat = (calls.map callEnd).foldl max 0 ∧
      payload o.writer = (shown 0 o.writer).map (·.1) ∧
      (∀ x ∈ shown 0 o.writer, x.1 = S x.2) ∧
      (shown 0 o.writer).Pairwise (fun x y => x.2 < y.2) ∧
      (payload o.writer).length + announced o.writer = o.received.toNat ∧
      ∀ call, AgreesWith S call →
        o.received.toNat ≤ (o.accept recording call.1 call.2).2.received.toNat ∧
          (2 ^ 64 ≤ call.1.toNat + call.2.length → o.accept recording call.1 call.2 =
            (.error (.fatal (.protocol "output offset overflow")), o)) ∧
          (call.1.toNat + call.2.length ≤ o.received.toNat →
            o.accept recording call.1 call.2 = (.ok (), o)) ∧
          (call.1.toNat + call.2.length < 2 ^ 64 →
            o.received.toNat < call.1.toNat + call.2.length →
            (o.accept recording call.1 call.2).2.writer = o.writer ++
              (if o.received < call.1 then [.gap (call.1.toNat - o.received.toNat)] else []) ++
              [.bytes (call.2.drop (o.received.toNat - call.1.toNat))]) ∧
          (o.accept recording call.1 call.2).1 ≠ .error .panicked := by
  intro o
  obtain ⟨hfollows, hrec⟩ := (SessionOutput.follows_new S).acceptAll hS
  refine ⟨hrec, (map_fst_shown 0 o.writer).symm, hfollows.shown, pairwise_shown 0 o.writer, ?_, ?_⟩
  · rw [length_payload_add_announced]
    exact hfollows.span
  · intro call hcall
    refine ⟨?_, o.accept_overflow recording, o.accept_of_le recording, fun hlt hnew => ?_,
      o.accept_ne_panicked recording call.1 call.2⟩
    · rw [(hfollows.accept hcall).2]
      exact Nat.le_max_left _ _
    · have hend := toNat_ofNat_of_lt hlt
      rw [o.accept_recording hend (by omega), acceptedPieces, List.append_assoc]
      split_ifs with hgap
      · rw [UInt64.lt_iff_toNat_lt] at hgap
        rw [UInt64.toNat_sub_of_le _ _ (UInt64.le_iff_toNat_le.2 (Nat.le_of_lt hgap))]
      · rfl

/-- An overlap, a gap, a backward jump and an empty payload. -/
theorem accept_writes_once_overlaps :
    ((SessionOutput.new []).acceptAll recording
      [(0, [7, 7]), (1, [7, 7]), (5, [7]), (0, [7]), (9, [])]).received.toNat = 9 :=
  (accept_writes_once (fun _ => 7) [(0, [7, 7]), (1, [7, 7]), (5, [7]), (0, [7]), (9, [])]
    (by
      unfold AgreesWith
      decide)).1

end Thther
