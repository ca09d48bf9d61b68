import Thther.Client.SessionOutput
import Thther.Lib.System
import Thther.Server.RingBuf

/-!
# Output replay across reconnects

The server's ring and `server_writer` cursor, the connection, and the client's `SessionOutput`, as
one transition system: the PTY reader appends chunks, `server_writer` iterates, frames are
delivered in order, the connection is cut anywhere (what is in flight is lost), and the client
reconnects with its committed `received` as the resume offset.

* `Replay.Inv`: the ring is the window over the stream `S`, the transcript the client has written
  tells `S` up to `received`, and the frames in flight continue it up to the server's cursor;
* `replay_exactly_once`: the bytes shown are `S[0..received)` without the announced gaps, every
  gap is a range `server_writer` skipped after its eviction, and no offset check rejects.
-/

namespace Thther

open Transcript

/-- The connection, from the client's hello to its loss. -/
inductive Link
  | down
  /-- `client_send` carried the resume offset. -/
  | hello (offset : UInt64)
  /-- `handle_tcp` accepted the offset and answered with its total. -/
  | answered (offset serverTotal : UInt64)
  /-- `server_writer` runs at `cursor`; the frames in flight, oldest first. -/
  | live (cursor : UInt64) (wire : List Frame)
  /-- One of the two offset checks has failed. -/
  | rejected
  /-- `client_reader` returned a fatal error. -/
  | fatal
  deriving DecidableEq

/-- A range `server_writer` skipped, with the ring's first retained position at that time. -/
structure Skip where
  lo : ℕ
  hi : ℕ
  ringStart : ℕ
  deriving DecidableEq

/-- The whole system. `stream` is everything appended so far, `skips` every range skipped. -/
structure Replay where
  stream : List UInt8
  ring : RingBuf
  link : Link
  client : SessionOutput (List (Segment UInt8))
  skips : List Skip
  deriving DecidableEq

inductive ReplayEvent
  /-- The PTY reader appends a chunk. -/
  | append (chunk : List UInt8)
  /-- The client opens a connection and sends its hello. -/
  | connect
  /-- The daemon checks the offset and answers. -/
  | serverCheck
  /-- The client checks the daemon's total; the connection is established. -/
  | clientCheck
  /-- One iteration of `server_writer`. -/
  | iterate
  /-- `server_writer` sends a `Ping` or a `Pong`. -/
  | heartbeat (f : Frame)
  /-- The client handles the oldest frame in flight. -/
  | deliver
  /-- The connection is lost. -/
  | cut

/-- The ranges skipped by a frame sent at `cursor`. -/
def skipOf (ring : RingBuf) (cursor : UInt64) : Frame → List Skip
  | .output offset _ =>
    if cursor < offset then [⟨cursor.toNat, offset.toNat, ring.start.toNat⟩] else []
  | _ => []

/-- `client_reader` on one frame, every stdout write succeeding. -/
def clientHandle (o : SessionOutput (List (Segment UInt8))) :
    Frame → Except Abort Unit × SessionOutput (List (Segment UInt8))
  | .output offset data => o.accept recording offset data
  | .ping => (.ok (), o)
  | .pong => (.ok (), o)
  | _ => (.error (.fatal (.protocol "unexpected server frame")), o)

/-- One event. -/
def replayStep (s : Replay) : ReplayEvent → Option Replay
  | .append chunk => some { s with stream := s.stream ++ chunk, ring := s.ring.append chunk }
  | .connect =>
    match s.link with
    | .down => some { s with link := .hello s.client.received }
    | _ => none
  | .serverCheck =>
    match s.link with
    | .hello offset =>
      if s.ring.total < offset then some { s with link := .rejected }
      else some { s with link := .answered offset s.ring.total }
    | _ => none
  | .clientCheck =>
    match s.link with
    | .answered offset serverTotal =>
      if serverTotal < offset then some { s with link := .rejected }
      else some { s with link := .live offset [] }
    | _ => none
  | .iterate =>
    match s.link with
    | .live cursor wire =>
      match serverWriterRead s.ring cursor with
      | some (f, cursor') =>
        some { s with
          link := .live cursor' (wire ++ [f])
          skips := s.skips ++ skipOf s.ring cursor f }
      | none => some s
    | _ => none
  | .heartbeat f =>
    match s.link with
    | .live cursor wire =>
      if f = .ping ∨ f = .pong then some { s with link := .live cursor (wire ++ [f]) } else none
    | _ => none
  | .deliver =>
    match s.link with
    | .live cursor (f :: wire) =>
      match clientHandle s.client f with
      | (.ok (), client) => some { s with client, link := .live cursor wire }
      | (.error _, client) => some { s with client, link := .fatal }
    | _ => none
  | .cut =>
    match s.link with
    | .hello _ | .answered _ _ | .live _ _ => some { s with link := .down }
    | _ => none

/-- The replay system, for any ring capacity. -/
def replaySystem : System Replay ReplayEvent where
  init s := ∃ cap, s = ⟨[], RingBuf.new cap, .down, SessionOutput.new [], []⟩
  step := replayStep

/-! ### The invariant -/

/-- The frames in flight continue a transcript that has reached `p`, up to the cursor `q`: they
carry bytes of `S`, and where one starts beyond the previous end the range was skipped. -/
def InFlight (S : List UInt8) (skips : List Skip) : ℕ → List Frame → ℕ → Prop
  | p, [], q => p = q
  | p, .output offset data :: wire, q =>
    p ≤ offset.toNat ∧ p < offset.toNat + data.length ∧ offset.toNat + data.length ≤ S.length ∧
      data <+: S.drop offset.toNat ∧
      (p < offset.toNat → ∃ k ∈ skips, k.lo = p ∧ k.hi = offset.toNat) ∧
      InFlight S skips (offset.toNat + data.length) wire q
  | p, .ping :: wire, q => InFlight S skips p wire q
  | p, .pong :: wire, q => InFlight S skips p wire q
  | _, _ :: _, _ => False

/-- The states the connection may be in when the client has committed `received` bytes. -/
def Link.Ok (S : List UInt8) (skips : List Skip) (received : UInt64) : Link → Prop
  | .down => True
  | .hello offset => offset = received
  | .answered offset serverTotal => offset = received ∧ offset ≤ serverTotal
  | .live cursor wire =>
    cursor.toNat ≤ S.length ∧ InFlight S skips received.toNat wire cursor.toNat
  | .rejected => False
  | .fatal => False

/-- The invariant of the replay system, for streams shorter than `2 ^ 64`. -/
structure Replay.Inv (s : Replay) : Prop where
  ring : s.ring.Holds s.stream
  received_le : s.client.received.toNat ≤ s.stream.length
  span_eq : span s.client.writer = s.client.received.toNat
  tells : Tells s.stream 0 s.client.writer
  announced : ∀ r ∈ gaps 0 s.client.writer, ∃ k ∈ s.skips, k.lo = r.1 ∧ k.hi = r.2
  evicted : ∀ k ∈ s.skips, k.hi ≤ k.ringStart
  link : s.link.Ok s.stream s.skips s.client.received

theorem InFlight.mono {S : List UInt8} {skips : List Skip} {p q : ℕ} {wire : List Frame}
    (h : InFlight S skips p wire q) (T : List UInt8) (more : List Skip) :
    InFlight (S ++ T) (skips ++ more) p wire q := by
  induction wire generalizing p with
  | nil => exact h
  | cons f wire ih =>
    cases f with
    | output offset data =>
      obtain ⟨hp, hlt, hlen, hdata, hskip, hrest⟩ := h
      refine ⟨hp, hlt, ?_, isPrefix_drop_append hdata T, fun hgap => ?_, ih hrest⟩
      · rw [List.length_append]; omega
      · obtain ⟨k, hk, hlo, hhi⟩ := hskip hgap
        exact ⟨k, List.mem_append_left _ hk, hlo, hhi⟩
    | ping => exact ih h
    | pong => exact ih h
    | _ => exact h.elim

/-- Frames in flight compose. -/
theorem InFlight.append {S : List UInt8} {skips : List Skip} {p q r : ℕ} {wire wire' : List Frame}
    (h : InFlight S skips p wire q) (h' : InFlight S skips q wire' r) :
    InFlight S skips p (wire ++ wire') r := by
  induction wire generalizing p with
  | nil => cases h; exact h'
  | cons f wire ih =>
    cases f with
    | output offset data =>
      obtain ⟨hp, hlt, hlen, hdata, hskip, hrest⟩ := h
      exact ⟨hp, hlt, hlen, hdata, hskip, ih hrest⟩
    | ping => exact ih h
    | pong => exact ih h
    | _ => exact h.elim

theorem Link.Ok.mono {S : List UInt8} {skips : List Skip} {received : UInt64} {l : Link}
    (h : l.Ok S skips received) (T : List UInt8) : l.Ok (S ++ T) skips received := by
  cases l with
  | live cursor wire =>
    obtain ⟨hc, hw⟩ := h
    have hw' := hw.mono T []
    rw [List.append_nil] at hw'
    refine ⟨?_, hw'⟩
    rw [List.length_append]; omega
  | _ => exact h

/-! ### Each event keeps the invariant -/

theorem Replay.Inv.append {s : Replay} (h : s.Inv) (chunk : List UInt8)
    (hlen : (s.stream ++ chunk).length < 2 ^ 64) :
    Replay.Inv { s with stream := s.stream ++ chunk, ring := s.ring.append chunk } where
  ring := h.ring.append chunk hlen
  received_le := by
    have := h.received_le
    dsimp only
    rw [List.length_append]; omega
  span_eq := h.span_eq
  tells := h.tells.append_stream chunk
  announced := h.announced
  evicted := h.evicted
  link := h.link.mono chunk

/-- Changing the connection only. -/
theorem Replay.Inv.relink {s : Replay} (h : s.Inv) {l : Link}
    (hl : l.Ok s.stream s.skips s.client.received) : Replay.Inv { s with link := l } :=
  ⟨h.ring, h.received_le, h.span_eq, h.tells, h.announced, h.evicted, hl⟩

theorem Replay.Inv.iterate {s : Replay} (h : s.Inv) (hlen : s.stream.length < 2 ^ 64)
    {cursor cursor' : UInt64} {wire : List Frame} {f : Frame} (hl : s.link = .live cursor wire)
    (hr : serverWriterRead s.ring cursor = some (f, cursor')) :
    Replay.Inv { s with
      link := .live cursor' (wire ++ [f]), skips := s.skips ++ skipOf s.ring cursor f } := by
  have hlink := h.link
  rw [hl] at hlink
  obtain ⟨hcursor, hwire⟩ := hlink
  obtain ⟨offset, data, rfl, hmax, hnext, hend, hge, hadv, hdata, hskip⟩ :=
    h.ring.serverWriterRead_eq_some hlen hr hcursor
  refine ⟨h.ring, h.received_le, h.span_eq, h.tells, ?_, ?_, hend, ?_⟩
  · intro r hrg
    obtain ⟨k, hk, hkr⟩ := h.announced r hrg
    exact ⟨k, List.mem_append_left _ hk, hkr⟩
  · intro k hk
    rcases List.mem_append.1 hk with hk | hk
    · exact h.evicted k hk
    · simp only [skipOf] at hk
      split_ifs at hk with hgap
      · rw [UInt64.lt_iff_toNat_lt] at hgap
        rw [List.mem_singleton.1 hk]
        exact Nat.le_of_eq (hskip hgap)
      · cases hk
  · have hnew : InFlight s.stream (s.skips ++ skipOf s.ring cursor (.output offset data))
        cursor.toNat [.output offset data] cursor'.toNat := by
      refine ⟨hge, by omega, by omega, hdata, fun hgap => ?_, hnext.symm⟩
      refine ⟨⟨cursor.toNat, offset.toNat, s.ring.start.toNat⟩, List.mem_append_right _ ?_, rfl,
        rfl⟩
      rw [skipOf, if_pos (by rw [UInt64.lt_iff_toNat_lt]; exact hgap)]
      exact List.mem_singleton_self _
    have hold := hwire.mono [] (skipOf s.ring cursor (.output offset data))
    rw [List.append_nil] at hold
    exact hold.append hnew

/-- Delivery of the oldest frame: `accept` succeeds and the transcript grows by the frame. -/
theorem Replay.Inv.deliver {s : Replay} (h : s.Inv) (hlen : s.stream.length < 2 ^ 64)
    {cursor : UInt64} {f : Frame} {wire : List Frame} (hl : s.link = .live cursor (f :: wire)) :
    ∃ client, clientHandle s.client f = (.ok (), client) ∧
      Replay.Inv { s with client, link := .live cursor wire } := by
  have hlink := h.link
  rw [hl] at hlink
  obtain ⟨hcursor, hwire⟩ := hlink
  cases f with
  | ping => exact ⟨s.client, rfl, h.relink ⟨hcursor, hwire⟩⟩
  | pong => exact ⟨s.client, rfl, h.relink ⟨hcursor, hwire⟩⟩
  | output offset data =>
    obtain ⟨hp, hlt, hend, hdata, hskip, hrest⟩ := hwire
    have hnat : (UInt64.ofNat (offset.toNat + data.length)).toNat = offset.toNat + data.length :=
      toNat_ofNat_of_lt (by omega)
    have haccept := s.client.accept_recording hnat (by omega)
    have hdrop : data.drop (s.client.received.toNat - offset.toNat) = data := by
      rw [Nat.sub_eq_zero_of_le hp, List.drop_zero]
    refine ⟨_, haccept, ?_⟩
    rw [acceptedPieces, hdrop]
    have hspan := h.span_eq
    by_cases hgap : s.client.received < offset
    · have hgap' := hgap
      rw [UInt64.lt_iff_toNat_lt] at hgap'
      have hn : (offset - s.client.received).toNat = offset.toNat - s.client.received.toNat :=
        UInt64.toNat_sub_of_le _ _ (by rw [UInt64.le_iff_toNat_le]; omega)
      have hpos : s.client.received.toNat + (offset.toNat - s.client.received.toNat)
          = offset.toNat := by omega
      rw [if_pos hgap, hn]
      refine ⟨h.ring, ?_, ?_, ?_, ?_, h.evicted, ?_⟩
      · dsimp only; omega
      · simp only [span_append, List.cons_append, List.nil_append, span_cons, span_nil,
          Segment.span, hspan]
        omega
      · rw [List.cons_append, List.nil_append, tells_append, Nat.zero_add, hspan]
        refine ⟨h.tells, ?_⟩
        simp only [Tells, hpos]
        exact ⟨hdata, trivial⟩
      · intro r hr
        rw [List.cons_append, List.nil_append, gaps_append, Nat.zero_add, hspan] at hr
        rcases List.mem_append.1 hr with hr | hr
        · exact h.announced r hr
        · simp only [gaps, hpos, List.mem_singleton] at hr
          obtain ⟨k, hk, hlo, hhi⟩ := hskip hgap'
          exact ⟨k, hk, by rw [hr, hlo], by rw [hr, hhi]⟩
      · exact ⟨hcursor, by dsimp only; rw [hnat]; exact hrest⟩
    · have heq : s.client.received.toNat = offset.toNat := by
        rw [UInt64.lt_iff_toNat_lt] at hgap
        omega
      rw [if_neg hgap, List.nil_append]
      refine ⟨h.ring, ?_, ?_, ?_, ?_, h.evicted, ?_⟩
      · dsimp only; omega
      · simp only [span_append, span_cons, span_nil, Segment.span, hspan]
        omega
      · rw [tells_append, Nat.zero_add, hspan, heq]
        exact ⟨h.tells, hdata, trivial⟩
      · intro r hr
        rw [gaps_append, Nat.zero_add] at hr
        rcases List.mem_append.1 hr with hr | hr
        · exact h.announced r hr
        · cases hr
      · exact ⟨hcursor, by dsimp only; rw [hnat]; exact hrest⟩
  | _ => exact hwire.elim

/-- The offset the client resumes from never exceeds the ring's total. -/
theorem Replay.Inv.received_le_total {s : Replay} (h : s.Inv) (hlen : s.stream.length < 2 ^ 64) :
    s.client.received ≤ s.ring.total := by
  rw [UInt64.le_iff_toNat_le, h.ring.toNat_total hlen]
  exact h.received_le

theorem replayStep_stream {s s' : Replay} {e : ReplayEvent} (h : replayStep s e = some s') :
    s.stream <+: s'.stream := by
  cases e <;> simp only [replayStep] at h
  · cases h; exact List.prefix_append _ _
  all_goals
    repeat' split at h
    all_goals first | cases h; exact List.prefix_rfl | simp at h

theorem replayStep_inv {s s' : Replay} {e : ReplayEvent} (h : s.Inv)
    (hlen : s'.stream.length < 2 ^ 64) (hs : replayStep s e = some s') : s'.Inv := by
  have hlen' : s.stream.length < 2 ^ 64 :=
    Nat.lt_of_le_of_lt (replayStep_stream hs).length_le hlen
  have hlink := h.link
  cases e with
  | append chunk => cases hs; exact h.append chunk hlen
  | connect =>
    simp only [replayStep] at hs
    split at hs
    · cases hs; exact h.relink rfl
    · cases hs
  | serverCheck =>
    simp only [replayStep] at hs
    split at hs
    · rename_i offset hl
      rw [hl] at hlink
      have hle : offset ≤ s.ring.total := by rw [hlink]; exact h.received_le_total hlen'
      rw [if_neg (by rw [UInt64.lt_iff_toNat_lt]; rw [UInt64.le_iff_toNat_le] at hle; omega)] at hs
      cases hs
      exact h.relink ⟨hlink, hle⟩
    · cases hs
  | clientCheck =>
    simp only [replayStep] at hs
    split at hs
    · rename_i offset serverTotal hl
      rw [hl] at hlink
      obtain ⟨rfl, hle⟩ := hlink
      rw [if_neg (by rw [UInt64.lt_iff_toNat_lt]; rw [UInt64.le_iff_toNat_le] at hle; omega)] at hs
      cases hs
      exact h.relink ⟨h.received_le, rfl⟩
    · cases hs
  | iterate =>
    simp only [replayStep] at hs
    split at hs
    · rename_i cursor wire hl
      split at hs
      · rename_i f cursor' hr
        cases hs
        exact h.iterate hlen' hl hr
      · cases hs; exact h
    · cases hs
  | heartbeat f =>
    simp only [replayStep] at hs
    split at hs
    · rename_i cursor wire hl
      rw [hl] at hlink
      split_ifs at hs with hf
      cases hs
      refine h.relink ⟨hlink.1, hlink.2.append ?_⟩
      rcases hf with rfl | rfl <;> rfl
    · cases hs
  | deliver =>
    simp only [replayStep] at hs
    split at hs
    · rename_i cursor f wire hl
      obtain ⟨client, hclient, hinv⟩ := h.deliver hlen' hl
      rw [hclient] at hs
      cases hs
      exact hinv
    · cases hs
  | cut =>
    simp only [replayStep] at hs
    split at hs
    all_goals first | cases hs; exact h.relink trivial | cases hs

theorem replay_inv {s : Replay} (hs : replaySystem.Reachable s)
    (hlen : s.stream.length < 2 ^ 64) : s.Inv := by
  refine System.invariant (I := fun s => s.stream.length < 2 ^ 64 → s.Inv)
    (fun s hi _ => ?_) (fun s e s' ih hst hl => ?_) hs hlen
  · obtain ⟨cap, rfl⟩ := hi
    exact ⟨RingBuf.holds_new cap, Nat.le_refl _, rfl, trivial, nofun, nofun, trivial⟩
  · exact replayStep_inv (ih (Nat.lt_of_le_of_lt (replayStep_stream hst).length_le hl)) hl hst

/-- **Exactly-once output across reconnects.**  In every reachable state the remote bytes the
client has written are `S[0..received)` without the announced gaps; every announced range is one
`server_writer` skipped, and whatever it skipped had been evicted; and the client's offset never
exceeds the ring total, so that neither side's offset check rejects. -/
theorem replay_exactly_once (s : Replay) (hs : replaySystem.Reachable s)
    (hlen : s.stream.length < 2 ^ 64) :
    payload s.client.writer =
        without (s.stream.take s.client.received.toNat) (gaps 0 s.client.writer) ∧
      span s.client.writer = s.client.received.toNat ∧
      (∀ r ∈ gaps 0 s.client.writer, ∃ k ∈ s.skips, k.lo = r.1 ∧ k.hi = r.2) ∧
      (∀ k ∈ s.skips, k.hi ≤ k.ringStart) ∧
      s.client.received ≤ s.ring.total ∧ s.link ≠ .rejected ∧ s.link ≠ .fatal := by
  have h := replay_inv hs hlen
  have hpay := h.tells.payload_eq (by rw [h.span_eq]; exact h.received_le)
  rw [h.span_eq] at hpay
  refine ⟨hpay, h.span_eq, h.announced, h.evicted, h.received_le_total hlen, ?_, ?_⟩
  · intro hl
    have := h.link
    rw [hl] at this
    exact this
  · intro hl
    have := h.link
    rw [hl] at this
    exact this

/-- Three bytes through a ring that retains two: the first is announced missing, the reconnect
resumes behind what was shown, and the frame in flight at the cut is sent again. -/
def reconnectRun : List ReplayEvent :=
  [.append [1, 2, 3], .connect, .serverCheck, .clientCheck, .iterate, .deliver, .append [4],
    .iterate, .cut, .connect, .serverCheck, .clientCheck, .iterate, .deliver]

/-- The run shows bytes 1 to 3 of the stream, after a gap of one. -/
theorem replay_exactly_once_reconnectRun :
    ∃ s, replaySystem.run ⟨[], RingBuf.new 2, .down, SessionOutput.new [], []⟩ reconnectRun
        = some s ∧
      s.client.writer = [.gap 1, .bytes [2, 3], .bytes [4]] ∧
      payload s.client.writer =
        without (s.stream.take s.client.received.toNat) (gaps 0 s.client.writer) :=
  ⟨_, rfl, by decide, (replay_exactly_once _
    (System.reachable_of_run reconnectRun ⟨2, rfl⟩ rfl) (by decide)).1⟩

end Thther
