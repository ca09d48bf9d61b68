import Thther.Lib.Escape
import Thther.Proto.Frame
import Mathlib.Data.List.Induction

/-!
# The client's sending half (`client_writer` in `client/session.rs`)

`clientWriterStep` is one iteration of the `select!` loop: which branch is ready, what it yields
and whether the writes of the iteration succeed are part of the event.  `sent` collects the frames
whose `write_frame` has returned `Ok`.

The loop over one chunk of stdin is `scanStdin`.  Its buffer `out` is local to the chunk, so a
detach in the middle of a chunk drops what the chunk has put there: `typed_iff_detach_heads_chunk`
says when that loses input.
-/

namespace Thther

/-- How a connection of the client ends. -/
inductive Outcome
  /-- Shell exited on the server. -/
  | ended
  /-- User pressed the detach sequence. -/
  | detached
  /-- Network dropped; caller should reconnect. -/
  | disconnected
  deriving DecidableEq

/-- The detach prefix key: Ctrl-\, followed by 'd'. -/
def detachPrefix : UInt8 := 0x1c
def detachKey : UInt8 := 100

/-- What the loop over one chunk comes to: the detach sequence, with the part of the chunk not yet
looked at, or the bytes to send and the next `prefix_pending`. -/
inductive Scan
  | detached (unread : List UInt8)
  | done (out : List UInt8) (prefixPending : Bool)
  deriving DecidableEq

/-- `for &b in &bytes`. -/
def scanStdin (prefixPending : Bool) (out : List UInt8) : List UInt8 → Scan
  | [] => .done out prefixPending
  | b :: bytes =>
    if prefixPending then
      if b = detachKey then .detached bytes
      else
        let out := out ++ [detachPrefix]
        if b = detachPrefix then scanStdin true out bytes
        else scanStdin false (out ++ [b]) bytes
    else if b = detachPrefix then scanStdin true out bytes
    else scanStdin false (out ++ [b]) bytes

/-- The local state of `client_writer`; `scanned` is the stdin it has looked at. -/
structure ClientWriter where
  prefixPending : Bool
  scanned : List UInt8
  sent : List Frame
  outcome : Option Outcome
  deriving DecidableEq

/-- `client_writer` when it is called. -/
def ClientWriter.new : ClientWriter where
  prefixPending := false
  scanned := []
  sent := []
  outcome := none

/-- The branch of `select!` that is ready, and whether its writes succeed. -/
inductive WriterEvent
  /-- `stdin_rx.recv()` -/
  | stdin (maybe : Option (List UInt8)) (ok : Bool)
  /-- `winch.recv()`, and what `terminal::size` returns -/
  | winch (size : Option (UInt16 × UInt16)) (ok : Bool)
  /-- `pong_rx.recv()` -/
  | pong (p : Option Unit) (ok : Bool)
  /-- `tick.tick()`, and what `received.load` returns -/
  | tick (off : UInt64) (okAck okPing : Bool)
  deriving DecidableEq

namespace ClientWriter

/-- `write_frame`, and the return when it fails. -/
def write (w : ClientWriter) (f : Frame) (ok : Bool) : ClientWriter :=
  if ok then { w with sent := w.sent ++ [f] } else { w with outcome := some .disconnected }

/-- The stdin branch. -/
def onStdin (w : ClientWriter) (bytes : List UInt8) (ok : Bool) : ClientWriter :=
  match scanStdin w.prefixPending [] bytes with
  | .detached unread =>
    { w with
      prefixPending := false
      scanned := w.scanned ++ bytes.take (bytes.length - unread.length)
      outcome := some .detached }
  | .done out prefixPending =>
    let w := { w with prefixPending, scanned := w.scanned ++ bytes }
    if out ≠ [] then w.write (.data out) ok else w

end ClientWriter

/-- One iteration; a writer that has returned takes no part any more. -/
def clientWriterStep (w : ClientWriter) (e : WriterEvent) : ClientWriter :=
  match w.outcome with
  | some _ => w
  | none =>
    match e with
    | .stdin none _ => { w with outcome := some .detached }
    | .stdin (some bytes) ok => w.onStdin bytes ok
    | .winch none _ => w
    | .winch (some (cols, rows)) ok => w.write (.resize cols rows) ok
    | .pong none _ => { w with outcome := some .disconnected }
    | .pong (some ()) ok => w.write .pong ok
    | .tick off okAck okPing =>
      let w := w.write (.ack off) okAck
      if okAck then w.write .ping okPing else w

/-- The writer after a sequence of events. -/
def ClientWriter.after (w : ClientWriter) (es : List WriterEvent) : ClientWriter :=
  es.foldl clientWriterStep w

/-- The payloads of the `Data` frames, concatenated. -/
def dataPayload (fs : List Frame) : List UInt8 :=
  fs.flatMap fun
    | .data b => b
    | _ => []

@[simp] theorem dataPayload_nil : dataPayload [] = [] := rfl

theorem dataPayload_append (fs gs : List Frame) :
    dataPayload (fs ++ gs) = dataPayload fs ++ dataPayload gs := List.flatMap_append

/-- The channels are open and every write succeeds. -/
def WriterEvent.Succeeds : WriterEvent → Prop
  | .stdin maybe ok => maybe.isSome = true ∧ ok = true
  | .winch _ ok => ok = true
  | .pong p ok => p.isSome = true ∧ ok = true
  | .tick _ okAck okPing => okAck = true ∧ okPing = true

/-- The chunk of stdin an event delivers. -/
def WriterEvent.chunk : WriterEvent → Option (List UInt8)
  | .stdin maybe _ => maybe
  | _ => none

/-- The chunks of stdin delivered by a sequence of events. -/
def chunks (es : List WriterEvent) : List (List UInt8) := es.filterMap WriterEvent.chunk

/-! ### The part of the writer that handles stdin -/

/-- What stdin has done to the writer. -/
structure Typed where
  payload : List UInt8
  scanned : List UInt8
  prefixPending : Bool
  outcome : Option Outcome
  deriving DecidableEq

/-- The writer as far as stdin is concerned. -/
def ClientWriter.typed (w : ClientWriter) : Typed :=
  ⟨dataPayload w.sent, w.scanned, w.prefixPending, w.outcome⟩

/-- One more chunk. -/
def Typed.feed (t : Typed) (bytes : List UInt8) : Typed :=
  match t.outcome with
  | some _ => t
  | none =>
    match scanStdin t.prefixPending [] bytes with
    | .detached unread =>
      { t with
        prefixPending := false
        scanned := t.scanned ++ bytes.take (bytes.length - unread.length)
        outcome := some .detached }
    | .done out prefixPending =>
      { t with
        payload := t.payload ++ out
        scanned := t.scanned ++ bytes
        prefixPending }

theorem typed_onStdin {w : ClientWriter} (h : w.outcome = none) (bytes : List UInt8) :
    (w.onStdin bytes true).typed = w.typed.feed bytes := by
  have ht : w.typed.outcome = none := h
  have hp : w.typed.prefixPending = w.prefixPending := rfl
  unfold ClientWriter.onStdin Typed.feed
  rw [ht, hp]
  cases scanStdin w.prefixPending [] bytes with
  | detached unread => rfl
  | done out prefixPending =>
    dsimp only
    split_ifs with hne
    · simp only [ClientWriter.write, ClientWriter.typed, if_true, dataPayload_append, h]
      simp [dataPayload]
    · rw [ne_eq, not_not] at hne
      rw [hne, List.append_nil]
      simp only [ClientWriter.typed, h]

/-- An iteration whose writes succeed feeds its chunk, if it has one. -/
theorem typed_clientWriterStep (w : ClientWriter) {e : WriterEvent} (h : e.Succeeds) :
    (clientWriterStep w e).typed = (e.chunk.toList).foldl Typed.feed w.typed := by
  cases ho : w.outcome with
  | some o =>
    have hfeed : ∀ bytes, w.typed.feed bytes = w.typed := by
      intro bytes
      unfold Typed.feed
      rw [show w.typed.outcome = some o from ho]
    unfold clientWriterStep
    rw [ho]
    cases e.chunk with
    | none => rfl
    | some bytes => exact (hfeed bytes).symm
  | none =>
    unfold clientWriterStep
    rw [ho]
    cases e with
    | stdin maybe ok =>
      obtain ⟨hm, rfl⟩ := h
      obtain ⟨bytes, rfl⟩ := Option.isSome_iff_exists.1 hm
      exact typed_onStdin ho bytes
    | winch size ok =>
      cases h
      rcases size with _ | ⟨cols, rows⟩
      · rfl
      · simp [ClientWriter.write, ClientWriter.typed, dataPayload, WriterEvent.chunk]
    | pong p ok =>
      obtain ⟨hp, rfl⟩ := h
      obtain ⟨u, rfl⟩ := Option.isSome_iff_exists.1 hp
      simp [ClientWriter.write, ClientWriter.typed, dataPayload, WriterEvent.chunk]
    | tick off okAck okPing =>
      obtain ⟨rfl, rfl⟩ := h
      simp [ClientWriter.write, ClientWriter.typed, dataPayload, WriterEvent.chunk]

/-- A run whose writes succeed feeds its chunks in order. -/
theorem typed_after (w : ClientWriter) {es : List WriterEvent} (h : ∀ e ∈ es, e.Succeeds) :
    (w.after es).typed = (chunks es).foldl Typed.feed w.typed := by
  induction es generalizing w with
  | nil => rfl
  | cons e es ih =>
    have hstep := typed_clientWriterStep w (h e List.mem_cons_self)
    have hrest := ih (clientWriterStep w e) fun e he => h e (List.mem_cons_of_mem _ he)
    show ((clientWriterStep w e).after es).typed = _
    rw [hrest, hstep]
    unfold chunks
    rw [List.filterMap_cons]
    cases e.chunk <;> rfl

/-! ### The loop over a chunk -/

/-- The first Ctrl-\ that is immediately followed by 'd'. -/
def detachAt (B : List UInt8) : Option ℕ := Escape.pairAt detachPrefix detachKey B

theorem detachPrefix_ne_detachKey : detachPrefix ≠ detachKey := by decide

open Escape in
/-- What the loop comes to on `u`, with nothing held back before it. -/
def scanFresh (out u : List UInt8) : Scan :=
  match detachAt u with
  | some i => .detached (u.drop (i + 2))
  | none => .done (out ++ released detachPrefix u) (endsHeld detachPrefix u)

open Escape in
theorem scanFresh_cons {c : UInt8} {u : List UInt8} (out : List UInt8)
    (hc : c ≠ detachPrefix ∨ u ≠ [])
    (hpair : detachAt (c :: u) = (detachAt u).map (· + 1)) :
    scanFresh out (c :: u) = scanFresh (out ++ [c]) u := by
  unfold scanFresh
  rw [hpair, released_cons hc, endsHeld_cons hc]
  cases detachAt u with
  | none => simp
  | some i => rfl

open Escape in
/-- The loop over a chunk scans the chunk behind the prefix held back before it. -/
theorem scanStdin_eq (pending : Bool) (out bytes : List UInt8) :
    scanStdin pending out bytes = scanFresh out (held detachPrefix pending ++ bytes) := by
  induction bytes generalizing pending out with
  | nil =>
    cases pending with
    | false => simp [scanStdin, scanFresh, detachAt, held, pairAt]
    | true => simp [scanStdin, scanFresh, detachAt, held, endsHeld]
  | cons b bytes ih =>
    unfold scanStdin
    cases pending with
    | false =>
      rw [if_neg Bool.false_ne_true]
      show _ = scanFresh out (b :: bytes)
      by_cases hb : b = detachPrefix
      · rw [if_pos hb, ih, hb]
        rfl
      · rw [if_neg hb, ih, scanFresh_cons out (Or.inl hb) (pairAt_cons_of_ne hb)]
        rfl
    | true =>
      rw [if_pos rfl]
      show _ = scanFresh out (detachPrefix :: b :: bytes)
      by_cases hkey : b = detachKey
      · have hpair : detachAt (detachPrefix :: detachKey :: bytes) = some 0 := pairAt_pair bytes
        rw [if_pos hkey, hkey]
        unfold scanFresh
        rw [hpair]
        rfl
      · have hpair : detachAt (detachPrefix :: b :: bytes) =
            (detachAt (b :: bytes)).map (· + 1) :=
          pairAt_cons_of_head (by simpa using hkey)
        rw [if_neg hkey, scanFresh_cons out (Or.inr (List.cons_ne_nil _ _)) hpair]
        dsimp only
        by_cases hb : b = detachPrefix
        · rw [if_pos hb, ih, hb]
          rfl
        · rw [if_neg hb, ih, scanFresh_cons _ (Or.inl hb) (pairAt_cons_of_ne hb)]
          rfl

/-! ### Any chunking -/

/-- Nothing typed yet. -/
def Typed.new : Typed := ⟨[], [], false, none⟩

/-- Where the chunk that holds position `n` starts. -/
def chunkStart (n : ℕ) : List (List UInt8) → ℕ
  | [] => 0
  | c :: cs => if n < c.length then 0 else c.length + chunkStart (n - c.length) cs

theorem chunkStart_le {n : ℕ} {cs : List (List UInt8)} (h : n < cs.flatten.length) :
    chunkStart n cs ≤ n := by
  induction cs generalizing n with
  | nil => exact Nat.zero_le n
  | cons c cs ih =>
    rw [List.flatten_cons, List.length_append] at h
    unfold chunkStart
    split_ifs with hc
    · exact Nat.zero_le n
    · have := ih (n := n - c.length) (by omega)
      omega

theorem chunkStart_append {n : ℕ} {cs : List (List UInt8)} (h : n < cs.flatten.length)
    (ds : List (List UInt8)) : chunkStart n (cs ++ ds) = chunkStart n cs := by
  induction cs generalizing n with
  | nil => cases h
  | cons c cs ih =>
    rw [List.flatten_cons, List.length_append] at h
    rw [List.cons_append]
    unfold chunkStart
    split_ifs with hc
    · rfl
    · rw [ih (n := n - c.length) (by omega)]

theorem chunkStart_last {n : ℕ} {cs : List (List UInt8)} {c : List UInt8}
    (hlo : cs.flatten.length ≤ n) (hhi : n < cs.flatten.length + c.length) :
    chunkStart n (cs ++ [c]) = cs.flatten.length := by
  induction cs generalizing n with
  | nil => exact if_pos (by simpa using hhi)
  | cons d cs ih =>
    rw [List.flatten_cons, List.length_append] at hlo hhi ⊢
    rw [List.cons_append, chunkStart, if_neg (by omega), ih (by omega) (by omega)]

section Feed

open Escape

/-- Without a detach pair, everything is sent but a trailing prefix. -/
theorem foldl_feed_of_none {cs : List (List UInt8)} (h : detachAt cs.flatten = none) :
    cs.foldl Typed.feed Typed.new =
      ⟨released detachPrefix cs.flatten, cs.flatten, endsHeld detachPrefix cs.flatten, none⟩ := by
  induction cs using List.reverseRecOn with
  | nil => rfl
  | append_singleton cs c ih =>
    rw [List.flatten_append, List.flatten_singleton] at h ⊢
    have hS : detachAt cs.flatten = none := pairAt_eq_none_of_append h
    have hnext : detachAt (held detachPrefix (endsHeld detachPrefix cs.flatten) ++ c) = none := by
      rw [detachAt, pairAt_append_held detachPrefix_ne_detachKey hS] at h
      exact Option.map_eq_none_iff.1 h
    rw [List.foldl_append, ih hS, List.foldl_cons, List.foldl_nil]
    unfold Typed.feed
    dsimp only
    rw [scanStdin_eq, scanFresh, hnext]
    dsimp only
    rw [List.nil_append, ← released_append_held_append, ← endsHeld_append_held]

/-- With a detach pair, what the chunks before the one that completes it release is sent. -/
theorem foldl_feed_of_some {cs : List (List UInt8)} {i : ℕ}
    (h : detachAt cs.flatten = some i) :
    cs.foldl Typed.feed Typed.new =
      ⟨released detachPrefix (cs.flatten.take (chunkStart (i + 1) cs)), cs.flatten.take (i + 2),
        false, some .detached⟩ := by
  induction cs using List.reverseRecOn with
  | nil => cases h
  | append_singleton cs c ih =>
    rw [List.flatten_append, List.flatten_singleton] at h ⊢
    rw [List.foldl_append, List.foldl_cons, List.foldl_nil]
    cases hS : detachAt cs.flatten with
    | some j =>
      have hj : j = i := by
        have := pairAt_append_of_some hS c
        rw [detachAt, this] at h
        exact Option.some.inj h
      subst hj
      have hlt := lt_length_of_pairAt hS
      have hstart := chunkStart_le hlt
      rw [ih hS, chunkStart_append hlt, List.take_append_of_le_length (by omega),
        List.take_append_of_le_length (by omega)]
      rfl
    | none =>
      obtain ⟨j, hj, hi⟩ : ∃ j,
          detachAt (held detachPrefix (endsHeld detachPrefix cs.flatten) ++ c) = some j ∧
          (released detachPrefix cs.flatten).length + j = i := by
        rw [detachAt, pairAt_append_held detachPrefix_ne_detachKey hS] at h
        exact Option.map_eq_some_iff.1 h
      have hlen := congrArg List.length (released_append_held (p := detachPrefix) cs.flatten)
      have hj' := lt_length_of_pairAt hj
      have hheld : (held detachPrefix (endsHeld detachPrefix cs.flatten)).length ≤ 1 := by
        unfold held
        split_ifs <;> simp
      rw [List.length_append] at hlen hj'
      rw [foldl_feed_of_none hS, chunkStart_last (by omega) (by omega), List.take_left]
      unfold Typed.feed
      dsimp only
      rw [scanStdin_eq, scanFresh, hj]
      dsimp only
      have htake : c.length - ((held detachPrefix (endsHeld detachPrefix cs.flatten) ++ c).drop
          (j + 2)).length = i + 2 - cs.flatten.length := by
        rw [List.length_drop, List.length_append]
        omega
      rw [htake, List.take_append, List.take_of_length_le (l := cs.flatten) (by omega)]

end Feed

/-- What is to be sent of everything typed, and how the writer is to return: the bytes before the
first detach pair, or all of them but a trailing prefix. -/
def typedSpec (B : List UInt8) : List UInt8 × Option Outcome :=
  match detachAt B with
  | some i => (B.take i, some .detached)
  | none => (Escape.released detachPrefix B, none)

/-- Nothing is to be sent of the chunk that completes the detach pair: it starts with the 'd', or
with the pair and no prefix is held back before it. -/
def DetachHeadsChunk (cs : List (List UInt8)) : Prop :=
  ∀ i, detachAt cs.flatten = some i →
    chunkStart (i + 1) cs = i + 1 ∨
      chunkStart (i + 1) cs = i ∧ (cs.flatten.take i).getLast? ≠ some detachPrefix

open Escape in
/-- **Detach detection and chunks.**  When every write succeeds, what is sent and how the writer
returns depend on the bytes typed alone, as `typedSpec` says, if and only if the chunk that
completes the detach pair, if there is one, has nothing to send before it. -/
theorem typed_iff_detach_heads_chunk (es : List WriterEvent) (h : ∀ e ∈ es, e.Succeeds) :
    (dataPayload (ClientWriter.new.after es).sent, (ClientWriter.new.after es).outcome) =
        typedSpec (chunks es).flatten ↔
      DetachHeadsChunk (chunks es) := by
  have htyped := typed_after ClientWriter.new h
  generalize ClientWriter.new.after es = w at htyped ⊢
  generalize chunks es = cs at htyped ⊢
  have hpayload : dataPayload w.sent = w.typed.payload := rfl
  have houtcome : w.outcome = w.typed.outcome := rfl
  rw [hpayload, houtcome, htyped]
  show ((cs.foldl Typed.feed Typed.new).payload, (cs.foldl Typed.feed Typed.new).outcome) = _ ↔ _
  unfold typedSpec DetachHeadsChunk
  cases hB : detachAt cs.flatten with
  | none =>
    rw [foldl_feed_of_none hB]
    simp
  | some i =>
    have hstart := chunkStart_le (lt_length_of_pairAt hB)
    rw [foldl_feed_of_some hB]
    simp only [Prod.mk.injEq, and_true, Option.some.injEq, forall_eq']
    exact released_take_eq_iff hB hstart

/-- The pair split over two chunks. -/
theorem typed_iff_detach_heads_chunk_split :
    (dataPayload (ClientWriter.new.after
        [.stdin (some [97, detachPrefix]) true, .stdin (some [detachKey]) true]).sent,
      (ClientWriter.new.after
        [.stdin (some [97, detachPrefix]) true, .stdin (some [detachKey]) true]).outcome) =
      ([97], some .detached) :=
  (typed_iff_detach_heads_chunk
    [.stdin (some [97, detachPrefix]) true, .stdin (some [detachKey]) true]
    (by
      intro e he
      rcases List.mem_pair.1 he with rfl | rfl <;> exact ⟨rfl, rfl⟩)).2
    (by
      intro i hi
      have h1 : i = 1 := by
        have hpair : detachAt (chunks
          [.stdin (some [97, detachPrefix]) true, .stdin (some [detachKey]) true]).flatten =
            some 1 := by decide
        rw [hpair] at hi
        exact (Option.some.inj hi).symm
      subst h1
      exact Or.inl (by decide))

/-- An 'a' and the pair in one chunk: the 'a' is not sent. -/
theorem detach_drops_chunk :
    ¬ (dataPayload (ClientWriter.new.after
          [.stdin (some [97, detachPrefix, detachKey]) true]).sent,
        (ClientWriter.new.after [.stdin (some [97, detachPrefix, detachKey]) true]).outcome) =
      typedSpec [97, detachPrefix, detachKey] := by
  decide

end Thther
