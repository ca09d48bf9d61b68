import Thther.Lib.System
import Thther.Proto.WireFormat
import Thther.Client.SessionOutput
import Thther.Client.Writer

/-!
# The client's receiving half (`client_reader` and the end of `connect_once`)

`readerStep` runs `client_reader` next to `client_writer` under the `select!` of `connect_once`,
one `select!` or one `accept` a step.  `wire` is all that will ever arrive from the server, up to
the byte where the connection is cut; a step that reads is taken when what it needs has arrived.
`accept` has no `select!` inside, so a stop signal that fires while it runs is seen afterwards.

* `readerStep_select`, `readerStep_accept`, `readerStep_pong`: what one step can do;
* `ended_iff_writer_outlasted`: a received `Ended` and a failing writer.
-/

namespace Thther

variable {Key W : Type}

/-- Where `client_reader` is. -/
inductive ReaderPhase
  /-- At the first `select!`. -/
  | selecting
  /-- `output.accept` comes next. -/
  | accepting (offset : UInt64) (data : List UInt8)
  /-- At the second `select!`, with a `Ping` to answer. -/
  | ponging
  | returned (res : Except Abort Outcome)

def ReaderPhase.isReturned : ReaderPhase → Bool
  | .returned _ => true
  | .selecting | .accepting _ _ | .ponging => false

/-- The steps to the next `select!` for a frame, or to the end. -/
def ReaderPhase.rank : ReaderPhase → ℕ
  | .selecting | .returned _ => 0
  | .accepting _ _ | .ponging => 1

/-- `client_reader` and what it shares with `connect_once`. -/
structure ClientReader (Key W : Type) where
  wire : List UInt8
  opener : Opener Key
  output : SessionOutput W
  /-- The filling of the pong channel. -/
  pongs : ℕ
  /-- What `client_writer` has returned; the stop signal has then been sent, and the receiving
  end of the pong channel is gone. -/
  stopped : Option Outcome
  phase : ReaderPhase
  /-- The frames `read_frame` has returned. -/
  reads : List Frame

/-- `client_reader` when it is called. -/
def ClientReader.new (wire : List UInt8) (opener : Opener Key) (output : SessionOutput W) :
    ClientReader Key W where
  wire
  opener
  output
  pongs := 0
  stopped := none
  phase := .selecting
  reads := []

inductive ReaderEvent
  /-- `client_writer` returns before `client_reader` does. -/
  | writerReturns (wo : Outcome)
  /-- `client_writer` takes a pong from the channel. -/
  | takePong
  /-- The first `select!`, when one of its branches is ready. -/
  | select
  | accept
  /-- The second `select!`, when one of its branches is ready. -/
  | pong
  deriving DecidableEq

/-- The capacity of the client's pong channel. -/
def clientPongCapacity : ℕ := 8

/-- The `match` on a frame. -/
def ReaderPhase.onFrame : Frame → ReaderPhase
  | .output offset data => .accepting offset data
  | .ended => .returned (.ok .ended)
  | .ping => .ponging
  | .pong => .selecting
  | .data _ | .resize _ _ | .ack _ | .hello =>
    .returned (.error (.fatal (.protocol "unexpected server frame")))

/-- One step. -/
def readerStep (A : Aead Key) (io : Stdout W) (s : ClientReader Key W) :
    ReaderEvent → Option (ClientReader Key W)
  | .writerReturns wo =>
    if s.phase.isReturned = false ∧ s.stopped = none then some { s with stopped := some wo }
    else none
  | .takePong =>
    if s.stopped = none ∧ 0 < s.pongs then some { s with pongs := s.pongs - 1 } else none
  | .select =>
    match s.phase with
    | .selecting =>
      -- `biased`: the stop signal is looked at first
      if s.stopped.isSome then some { s with phase := .returned (.ok .disconnected) }
      else
        match readFrame A s.wire s.opener with
        | (.ok f, wire, opener) =>
          some { s with wire, opener, phase := .onFrame f, reads := s.reads ++ [f] }
        | (.error _, wire, opener) =>
          some { s with wire, opener, phase := .returned (.ok .disconnected) }
    | _ => none
  | .accept =>
    match s.phase with
    | .accepting offset data =>
      match s.output.accept io offset data with
      | (.ok (), output) => some { s with output, phase := .selecting }
      | (.error e, output) => some { s with output, phase := .returned (.error e) }
    | _ => none
  | .pong =>
    match s.phase with
    | .ponging =>
      -- either the stop signal, or a send on a channel without a receiver
      if s.stopped.isSome then some { s with phase := .returned (.ok .disconnected) }
      else if s.pongs < clientPongCapacity then
        some { s with pongs := s.pongs + 1, phase := .selecting }
      else none
    | _ => none

/-- All runs of one connection's reader. -/
def readerSystem (A : Aead Key) (io : Stdout W) (wire : List UInt8) (opener : Opener Key)
    (output : SessionOutput W) : System (ClientReader Key W) ReaderEvent where
  init s := s = .new wire opener output
  step := readerStep A io

/-- What `connect_once` returns, once the reader has. -/
def ClientReader.result (s : ClientReader Key W) : Option (Except Abort Outcome) :=
  match s.phase with
  | .returned ro =>
    match s.stopped with
    | none => some ro
    | some wo =>
      match ro with
      | .error e => some (.error e)
      | .ok ro => some (.ok (if ro = .ended then ro else wo))
  | _ => none

theorem ClientReader.result_of_not_returned {s : ClientReader Key W}
    (h : s.phase.isReturned = false) : s.result = none := by
  unfold ClientReader.result
  cases hphase : s.phase with
  | returned ro => rw [hphase] at h; cases h
  | _ => rfl

theorem ClientReader.result_error {s : ClientReader Key W} {e : Abort}
    (h : s.phase = .returned (.error e)) : s.result = some (.error e) := by
  unfold ClientReader.result
  rw [h]
  cases s.stopped <;> rfl

theorem ClientReader.result_ok {s : ClientReader Key W} {out : Outcome}
    (h : s.phase = .returned (.ok out)) : ∃ o, s.result = some (.ok o) := by
  unfold ClientReader.result
  rw [h]
  cases s.stopped <;> exact ⟨_, rfl⟩

/-- The calls of `accept` for a sequence of frames. -/
def outputCalls (fs : List Frame) : List (UInt64 × List UInt8) :=
  fs.filterMap fun
    | .output offset data => some (offset, data)
    | _ => none

theorem outputCalls_append (fs gs : List Frame) :
    outputCalls (fs ++ gs) = outputCalls fs ++ outputCalls gs := List.filterMap_append

/-! ### What one step can do -/

section Step

variable {A : Aead Key} {io : Stdout W} {s s' : ClientReader Key W}

/-- The stop signal is set by the writer's return, once, and by nothing else. -/
theorem readerStep_stopped {e : ReaderEvent} (h : readerStep A io s e = some s') :
    (∃ wo, e = .writerReturns wo ∧ s.stopped = none ∧ s'.stopped = some wo) ∨
    ((∀ wo, e ≠ .writerReturns wo) ∧ s'.stopped = s.stopped) := by
  cases e with
  | writerReturns wo =>
    simp only [readerStep] at h
    split_ifs at h with hrun
    cases h
    exact Or.inl ⟨wo, rfl, hrun.2, rfl⟩
  | takePong =>
    simp only [readerStep] at h
    split_ifs at h
    cases h
    exact Or.inr ⟨fun wo => nofun, rfl⟩
  | select =>
    refine Or.inr ⟨fun wo => nofun, ?_⟩
    simp only [readerStep] at h
    split at h
    · split_ifs at h
      · cases h
        rfl
      · split at h <;> cases h <;> rfl
    · cases h
  | accept =>
    refine Or.inr ⟨fun wo => nofun, ?_⟩
    simp only [readerStep] at h
    split at h
    · split at h <;> cases h <;> rfl
    · cases h
  | pong =>
    refine Or.inr ⟨fun wo => nofun, ?_⟩
    simp only [readerStep] at h
    split at h
    · split_ifs at h <;> cases h <;> rfl
    · cases h

/-- The first `select!`: the stop signal, a frame, or the end of the connection. -/
theorem readerStep_select (h : readerStep A io s .select = some s') :
    s.phase = .selecting ∧
    ((s.stopped ≠ none ∧ s' = { s with phase := .returned (.ok .disconnected) }) ∨
    (s.stopped = none ∧ ∃ f wire opener, readFrame A s.wire s.opener = (.ok f, wire, opener) ∧
      s' = { s with wire, opener, phase := .onFrame f, reads := s.reads ++ [f] }) ∨
    (s.stopped = none ∧ ∃ e wire opener,
      readFrame A s.wire s.opener = (.error e, wire, opener) ∧
      s' = { s with wire, opener, phase := .returned (.ok .disconnected) })) := by
  simp only [readerStep] at h
  split at h
  · rename_i hphase
    refine ⟨hphase, ?_⟩
    split_ifs at h with hstop
    · cases h
      exact Or.inl ⟨by simpa [Option.isSome_iff_ne_none] using hstop, rfl⟩
    · have hnone : s.stopped = none := by simpa using hstop
      split at h
      · rename_i f wire opener hread
        cases h
        exact Or.inr (Or.inl ⟨hnone, f, wire, opener, hread, rfl⟩)
      · rename_i e wire opener hread
        cases h
        exact Or.inr (Or.inr ⟨hnone, e, wire, opener, hread, rfl⟩)
  · cases h

theorem readerStep_accept (h : readerStep A io s .accept = some s') :
    ∃ offset data, s.phase = .accepting offset data ∧
    ((∃ output, s.output.accept io offset data = (.ok (), output) ∧
      s' = { s with output, phase := .selecting }) ∨
    (∃ e output, s.output.accept io offset data = (.error e, output) ∧
      s' = { s with output, phase := .returned (.error e) })) := by
  simp only [readerStep] at h
  split at h
  · rename_i offset data hphase
    refine ⟨offset, data, hphase, ?_⟩
    split at h
    · rename_i output hacc
      cases h
      exact Or.inl ⟨output, hacc, rfl⟩
    · rename_i e output hacc
      cases h
      exact Or.inr ⟨e, output, hacc, rfl⟩
  · cases h

theorem readerStep_pong (h : readerStep A io s .pong = some s') :
    s.phase = .ponging ∧
    ((s.stopped ≠ none ∧ s' = { s with phase := .returned (.ok .disconnected) }) ∨
    (s.stopped = none ∧ s' = { s with pongs := s.pongs + 1, phase := .selecting })) := by
  simp only [readerStep] at h
  split at h
  · rename_i hphase
    refine ⟨hphase, ?_⟩
    split_ifs at h with hstop
    · cases h
      exact Or.inl ⟨by simpa [Option.isSome_iff_ne_none] using hstop, rfl⟩
    · cases h
      exact Or.inr ⟨by simpa using hstop, rfl⟩
  · cases h

/-- The writer's return and its taking a pong leave the reader where it is. -/
theorem readerStep_writer {e : ReaderEvent} (he : e = .takePong ∨ ∃ wo, e = .writerReturns wo)
    (h : readerStep A io s e = some s') :
    ∃ pongs stopped, s' = { s with pongs, stopped } ∧
      (s.phase.isReturned = false ∨ stopped = s.stopped) := by
  rcases he with rfl | ⟨wo, rfl⟩
  · simp only [readerStep] at h
    split_ifs at h
    cases h
    exact ⟨_, _, rfl, Or.inr rfl⟩
  · simp only [readerStep] at h
    split_ifs at h with hrun
    cases h
    exact ⟨_, _, rfl, Or.inl hrun.1⟩

/-- The pong channel holds no more than its capacity. -/
theorem readerStep_pongs {e : ReaderEvent} (h : readerStep A io s e = some s')
    (hp : s.pongs ≤ clientPongCapacity) : s'.pongs ≤ clientPongCapacity := by
  cases e with
  | writerReturns wo =>
    simp only [readerStep] at h
    split_ifs at h
    cases h
    exact hp
  | takePong =>
    simp only [readerStep] at h
    split_ifs at h
    cases h
    exact Nat.le_trans (Nat.sub_le _ _) hp
  | select =>
    obtain ⟨-, ⟨-, rfl⟩ | ⟨-, f, wire, opener, -, rfl⟩ | ⟨-, e, wire, opener, -, rfl⟩⟩ :=
      readerStep_select h
    all_goals exact hp
  | accept =>
    obtain ⟨offset, data, -, ⟨output, -, rfl⟩ | ⟨e, output, -, rfl⟩⟩ := readerStep_accept h
    all_goals exact hp
  | pong =>
    simp only [readerStep] at h
    split at h
    · split_ifs at h with hstop hroom
      · cases h
        exact hp
      · cases h
        exact hroom
    · cases h

theorem run_pongs {wire : List UInt8} {opener : Opener Key} {output : SessionOutput W}
    {es : List ReaderEvent} (h : (readerSystem A io wire opener output).run s es = some s')
    (hp : s.pongs ≤ clientPongCapacity) : s'.pongs ≤ clientPongCapacity :=
  System.run_invariant (I := fun s : ClientReader Key W => s.pongs ≤ clientPongCapacity)
    (fun _ _ _ hp h => readerStep_pongs h hp) hp h

/-- What the writer has returned stays. -/
theorem run_stopped_of_some {wire : List UInt8} {opener : Opener Key} {output : SessionOutput W}
    {es : List ReaderEvent} {wo : Outcome} (hs : s.stopped = some wo)
    (h : (readerSystem A io wire opener output).run s es = some s') : s'.stopped = some wo := by
  refine System.run_invariant (I := fun s : ClientReader Key W => s.stopped = some wo) ?_ hs h
  intro s e s' hs hstep
  rcases readerStep_stopped hstep with ⟨wo', -, hnone, -⟩ | ⟨-, hsame⟩
  · rw [hs] at hnone
    cases hnone
  · rw [hsame, hs]

/-- What the writer has returned is an event of the run. -/
theorem mem_of_run_stopped {wire : List UInt8} {opener : Opener Key} {output : SessionOutput W}
    {es : List ReaderEvent} {wo : Outcome} (hs : s.stopped = none)
    (h : (readerSystem A io wire opener output).run s es = some s') (hwo : s'.stopped = some wo) :
    .writerReturns wo ∈ es := by
  induction es generalizing s with
  | nil =>
    cases h
    rw [hs] at hwo
    cases hwo
  | cons e es ih =>
    rw [System.run_cons, Option.bind_eq_some_iff] at h
    obtain ⟨s₁, h₁, h₂⟩ := h
    rcases readerStep_stopped h₁ with ⟨wo₁, rfl, -, hset⟩ | ⟨-, hsame⟩
    · rw [run_stopped_of_some hset h₂, Option.some.injEq] at hwo
      rw [hwo]
      exact List.mem_cons_self
    · exact List.mem_cons_of_mem _ (ih (hsame.trans hs) h₂)

/-- A writer that returns does so in the run. -/
theorem run_stopped {wire : List UInt8} {opener : Opener Key} {output : SessionOutput W}
    {es : List ReaderEvent}
    (h : (readerSystem A io wire opener output).run s es = some s') :
    s'.stopped = none ↔ s.stopped = none ∧ ∀ wo, .writerReturns wo ∉ es := by
  induction es generalizing s with
  | nil =>
    cases h
    simp
  | cons e es ih =>
    rw [System.run_cons, Option.bind_eq_some_iff] at h
    obtain ⟨s₁, h₁, h₂⟩ := h
    rw [ih h₂]
    rcases readerStep_stopped h₁ with ⟨wo, rfl, -, hs⟩ | ⟨hne, hs⟩
    · rw [hs]
      constructor
      · rintro ⟨hnone, -⟩
        cases hnone
      · rintro ⟨-, hall⟩
        exact absurd List.mem_cons_self (hall wo)
    · rw [hs]
      simp only [List.mem_cons, not_or]
      constructor
      · rintro ⟨hnone, hall⟩
        exact ⟨hnone, fun wo => ⟨fun he => hne wo he.symm, hall wo⟩⟩
      · rintro ⟨hnone, hall⟩
        exact ⟨hnone, fun wo => (hall wo).2⟩

end Step

/-- An error of the reader is a fatal one. -/
def ClientReader.ErrorsFatal (s : ClientReader Key W) : Prop :=
  ∀ e, s.phase = .returned (.error e) → ∃ f, e = .fatal f

section Fatal

variable {A : Aead Key} {io : Stdout W} {s s' : ClientReader Key W}

theorem ReaderPhase.onFrame_error {f : Frame} {e : Abort}
    (h : ReaderPhase.onFrame f = .returned (.error e)) : ∃ f, e = .fatal f := by
  cases f <;> simp only [ReaderPhase.onFrame, ReaderPhase.returned.injEq, Except.error.injEq,
    reduceCtorEq] at h
  all_goals exact ⟨_, h.symm⟩

theorem ClientReader.ErrorsFatal.step (h : s.ErrorsFatal) {e : ReaderEvent}
    (hstep : readerStep A io s e = some s') : s'.ErrorsFatal := by
  cases e with
  | writerReturns wo =>
    obtain ⟨pongs, stopped, rfl, -⟩ := readerStep_writer (Or.inr ⟨wo, rfl⟩) hstep
    exact h
  | takePong =>
    obtain ⟨pongs, stopped, rfl, -⟩ := readerStep_writer (Or.inl rfl) hstep
    exact h
  | select =>
    obtain ⟨-, ⟨-, rfl⟩ | ⟨-, f, wire, opener, -, rfl⟩ | ⟨-, e, wire, opener, -, rfl⟩⟩ :=
      readerStep_select hstep
    · exact fun _ => nofun
    · exact fun e he => ReaderPhase.onFrame_error he
    · exact fun _ => nofun
  | accept =>
    obtain ⟨offset, data, -, ⟨output, -, rfl⟩ | ⟨e, output, hacc, rfl⟩⟩ := readerStep_accept hstep
    · exact fun _ => nofun
    · intro e' he
      cases he
      have hne := s.output.accept_ne_panicked io offset data
      rw [hacc] at hne
      cases e with
      | fatal f => exact ⟨f, rfl⟩
      | panicked => exact absurd rfl hne
  | pong =>
    obtain ⟨-, ⟨-, rfl⟩ | ⟨-, rfl⟩⟩ := readerStep_pong hstep
    all_goals exact fun _ => nofun

theorem ClientReader.ErrorsFatal.run {wire : List UInt8} {opener : Opener Key}
    {output : SessionOutput W} (h : s.ErrorsFatal) {es : List ReaderEvent}
    (hrun : (readerSystem A io wire opener output).run s es = some s') : s'.ErrorsFatal :=
  System.run_invariant (I := ClientReader.ErrorsFatal) (fun _ _ _ h hstep => h.step hstep) h hrun

/-- An error of `connect_once` after the `Resize` is a fatal one. -/
theorem ClientReader.ErrorsFatal.result (h : s.ErrorsFatal) {e : Abort}
    (hres : s.result = some (.error e)) : ∃ f, e = .fatal f := by
  cases hphase : s.phase with
  | returned ro =>
    cases ro with
    | error e' =>
      rw [ClientReader.result_error hphase] at hres
      cases hres
      exact h e hphase
    | ok out =>
      obtain ⟨o, ho⟩ := ClientReader.result_ok hphase
      rw [ho] at hres
      cases hres
  | _ =>
    rw [ClientReader.result_of_not_returned (by rw [hphase]; rfl)] at hres
    cases hres

end Fatal

/-! ### Everything the server has sent, up to `Ended` -/

/-- What `server_writer` sends besides `Ended`, within the bounds of the codec. -/
def Frame.FromServer : Frame → Prop
  | .output offset bytes => (Frame.output offset bytes).InBounds
  | .ping | .pong => True
  | .data _ | .resize _ _ | .ack _ | .hello | .ended => False

theorem Frame.FromServer.sendable {f : Frame} (h : f.FromServer) : f.Sendable := by
  cases f with
  | output offset bytes => exact h
  | ping => trivial
  | pong => trivial
  | _ => exact absurd h id

section Ended

variable {A : Aead Key} {o₀ : SessionOutput (List (Transcript.Segment UInt8))}
  {frames : List Frame} {s s' : ClientReader Key (List (Transcript.Segment UInt8))}

/-- A reader of frames of the server followed by `Ended`, on a stdout that works: it is through a
part of them, and has committed the output among that part. -/
structure Receiving (A : Aead Key) (o₀ : SessionOutput (List (Transcript.Segment UInt8)))
    (frames : List Frame) (s : ClientReader Key (List (Transcript.Segment UInt8))) : Prop where
  todo : s.phase.isReturned = false → ∃ todo rest o, s.reads ++ todo = frames ++ [.ended] ∧
    todo ≠ [] ∧ readN A todo.length s.wire s.opener = (.ok todo, rest, o)
  output : (∀ offset data, s.phase ≠ .accepting offset data) →
    s.output = o₀.acceptAll recording (outputCalls s.reads)
  accepting : ∀ offset data, s.phase = .accepting offset data →
    (Frame.output offset data).InBounds ∧ ∃ reads, s.reads = reads ++ [.output offset data] ∧
      s.output = o₀.acceptAll recording (outputCalls reads)
  returned : ∀ res, s.phase = .returned res →
    (s.stopped = none ∧ res = .ok .ended ∧ s.reads = frames ++ [.ended]) ∨
      (s.stopped ≠ none ∧ res = .ok .disconnected)

theorem SessionOutput.acceptAll_append {io : Stdout W} (o : SessionOutput W)
    (calls calls' : List (UInt64 × List UInt8)) :
    o.acceptAll io (calls ++ calls') = (o.acceptAll io calls).acceptAll io calls' :=
  List.foldl_append

/-- On a stdout that works, `accept` of a frame within the bounds succeeds. -/
theorem accept_recording_inBounds (o : SessionOutput (List (Transcript.Segment UInt8)))
    {offset : UInt64} {data : List UInt8} (h : (Frame.output offset data).InBounds) :
    o.accept recording offset data = (.ok (), (o.accept recording offset data).2) := by
  have hend := toNat_ofNat_of_lt h.2
  rcases Nat.lt_or_ge o.received.toNat (offset.toNat + data.length) with hnew | hold
  · rw [o.accept_recording hend (by omega)]
  · rw [o.accept_of_le recording hold]

/-- The writer's return and its taking a pong. -/
theorem Receiving.writer (h : Receiving A o₀ frames s) {pongs : ℕ} {stopped : Option Outcome}
    (hret : s.phase.isReturned = false ∨ stopped = s.stopped) :
    Receiving A o₀ frames { s with pongs, stopped } := by
  refine ⟨h.todo, h.output, h.accepting, ?_⟩
  intro res hres
  rcases hret with hret | rfl
  · rw [show s.phase = .returned res from hres] at hret
    cases hret
  · exact h.returned res hres

/-- The next frame has been read: it is `Ended`, or one of the frames before it. -/
theorem Receiving.onFrame (h : Receiving A o₀ frames s) (hf : ∀ f ∈ frames, f.FromServer)
    (hphase : s.phase = .selecting) (hrun : s.stopped = none) {f : Frame} {wire : List UInt8}
    {opener : Opener Key} (hframe : readFrame A s.wire s.opener = (.ok f, wire, opener)) :
    Receiving A o₀ frames
      { s with wire, opener, phase := .onFrame f, reads := s.reads ++ [f] } := by
  have hout := h.output (by rw [hphase]; exact fun _ _ => nofun)
  have hother : outputCalls [f] = [] →
      s.output = o₀.acceptAll recording (outputCalls (s.reads ++ [f])) := by
    intro hnone
    rw [outputCalls_append, hnone, List.append_nil]
    exact hout
  obtain ⟨todo, rest, o, htodo, hne, hread⟩ := h.todo (by rw [hphase]; rfl)
  obtain ⟨g, todo, rfl⟩ := List.exists_cons_of_ne_nil hne
  obtain ⟨g', gs, r₁, o₁, hgs, hg, hrest⟩ := readN_succ_eq_ok hread
  rw [hframe] at hg
  cases hg
  cases hgs
  have hreads : (s.reads ++ [f]) ++ todo = frames ++ [.ended] := by
    rw [List.append_assoc]
    exact htodo
  rcases List.eq_nil_or_concat todo with rfl | ⟨todo, last, rfl⟩
  · -- the last frame is `Ended`
    rw [List.append_nil] at hreads
    obtain ⟨hs, hlast⟩ := List.append_inj' hreads rfl
    obtain rfl : f = .ended := by simpa using hlast
    refine ⟨nofun, fun _ => hother rfl, fun _ _ => nofun, ?_⟩
    intro res hres
    cases hres
    exact Or.inl ⟨hrun, rfl, hreads⟩
  · -- a frame before it
    have hmem : f ∈ frames := by
      have hinit : (s.reads ++ [f]) ++ todo = frames := by
        rw [List.concat_eq_append, ← List.append_assoc] at hreads
        exact (List.append_inj' hreads rfl).1
      rw [← hinit]
      simp
    have hserver := hf f hmem
    have hmore : ∃ todo' rest' o', (s.reads ++ [f]) ++ todo' = frames ++ [.ended] ∧
        todo' ≠ [] ∧ readN A todo'.length wire opener = (.ok todo', rest', o') :=
      ⟨_, rest, o, hreads, by simp, hrest⟩
    cases f with
    | output offset data =>
      refine ⟨fun _ => hmore, ?_, ?_, nofun⟩
      · intro hnot
        exact absurd rfl (hnot offset data)
      · intro offset' data' heq
        cases heq
        exact ⟨hserver, s.reads, rfl, hout⟩
    | ping => exact ⟨fun _ => hmore, fun _ => hother rfl, fun _ _ => nofun, nofun⟩
    | pong => exact ⟨fun _ => hmore, fun _ => hother rfl, fun _ _ => nofun, nofun⟩
    | _ => exact absurd hserver id

/-- The stop signal is seen at a `select!`. -/
theorem Receiving.onStop (h : Receiving A o₀ frames s)
    (hphase : s.phase = .selecting ∨ s.phase = .ponging) (hstop : s.stopped ≠ none) :
    Receiving A o₀ frames { s with phase := .returned (.ok .disconnected) } := by
  have hout : s.output = o₀.acceptAll recording (outputCalls s.reads) := by
    apply h.output
    intro offset data hacc
    rcases hphase with hphase | hphase
    · rw [hphase] at hacc
      cases hacc
    · rw [hphase] at hacc
      cases hacc
  refine ⟨nofun, fun _ => hout, fun _ _ => nofun, ?_⟩
  intro res hres
  cases hres
  exact Or.inr ⟨hstop, rfl⟩

theorem Receiving.step (h : Receiving A o₀ frames s) (hf : ∀ f ∈ frames, f.FromServer)
    {e : ReaderEvent} (hstep : readerStep A recording s e = some s') :
    Receiving A o₀ frames s' := by
  cases e with
  | writerReturns wo =>
    obtain ⟨pongs, stopped, rfl, hret⟩ := readerStep_writer (Or.inr ⟨wo, rfl⟩) hstep
    exact h.writer hret
  | takePong =>
    obtain ⟨pongs, stopped, rfl, hret⟩ := readerStep_writer (Or.inl rfl) hstep
    exact h.writer hret
  | select =>
    obtain ⟨hphase, hcase⟩ := readerStep_select hstep
    rcases hcase with ⟨hstop, rfl⟩ | ⟨hrun, f, wire, opener, hframe, rfl⟩ |
      ⟨hrun, e, wire, opener, hframe, rfl⟩
    · exact h.onStop (Or.inl hphase) hstop
    · exact h.onFrame hf hphase hrun hframe
    · -- nothing is missing on the wire
      obtain ⟨todo, rest, o, -, hne, hread⟩ := h.todo (by rw [hphase]; rfl)
      obtain ⟨g, todo, rfl⟩ := List.exists_cons_of_ne_nil hne
      obtain ⟨g', gs, r₁, o₁, -, hg, -⟩ := readN_succ_eq_ok hread
      rw [hframe] at hg
      cases hg
  | accept =>
    obtain ⟨offset, data, hphase, hcase⟩ := readerStep_accept hstep
    obtain ⟨hbound, reads, hreads, hout⟩ := h.accepting offset data hphase
    have hok := accept_recording_inBounds s.output hbound
    rcases hcase with ⟨output, hacc, rfl⟩ | ⟨e, output, hacc, rfl⟩
    · refine ⟨fun _ => h.todo (by rw [hphase]; rfl), ?_, fun _ _ => nofun, nofun⟩
      intro _
      show output = o₀.acceptAll recording (outputCalls s.reads)
      have hcalls : outputCalls s.reads = outputCalls reads ++ [(offset, data)] := by
        rw [hreads, outputCalls_append]
        rfl
      have hnext : output = (s.output.accept recording offset data).2 := by rw [hacc]
      rw [hcalls, SessionOutput.acceptAll_append, ← hout, hnext]
      rfl
    · rw [hok] at hacc
      cases hacc
  | pong =>
    obtain ⟨hphase, hcase⟩ := readerStep_pong hstep
    rcases hcase with ⟨hstop, rfl⟩ | ⟨-, rfl⟩
    · exact h.onStop (Or.inr hphase) hstop
    · have hout := h.output (by rw [hphase]; exact fun _ _ => nofun)
      exact ⟨fun _ => h.todo (by rw [hphase]; rfl), fun _ => hout, fun _ _ => nofun, nofun⟩

theorem Receiving.run {wire : List UInt8} {opener : Opener Key}
    (h : Receiving A o₀ frames s) (hf : ∀ f ∈ frames, f.FromServer) {es : List ReaderEvent}
    (hrun : (readerSystem A recording wire opener o₀).run s es = some s') :
    Receiving A o₀ frames s' :=
  System.run_invariant (I := Receiving A o₀ frames) (fun _ _ _ h hstep => h.step hf hstep) h hrun

/-- All records have arrived, and nothing of them is read yet. -/
theorem receiving_new (hA : A.Lawful) {server server' : Sealer Key}
    (hf : ∀ f ∈ frames, f.FromServer) {records : List UInt8}
    (hw : writeFrames A server (frames ++ [.ended]) = (.ok records, server')) (rest : List UInt8) :
    Receiving A o₀ frames (.new (records ++ rest) server.opener o₀) := by
  have hsend : ∀ f ∈ frames ++ [Frame.ended], f.Sendable := by
    intro f hmem
    rcases List.mem_append.1 hmem with hmem | hmem
    · exact (hf f hmem).sendable
    · rw [List.mem_singleton.1 hmem]
      trivial
  have hcount : server.counter.toNat + (frames ++ [Frame.ended]).length < 2 ^ 64 := by
    by_contra hge
    obtain ⟨e, s', herr⟩ := writeFrames_exhausted (A := A) server (Nat.le_of_not_lt hge)
    rw [hw] at herr
    cases herr
  obtain ⟨records', s', hw', -, -, -, hback⟩ := writeFrames_readsBack hA hsend hcount
  rw [hw] at hw'
  cases hw'
  refine ⟨?_, fun _ => rfl, fun _ _ => nofun, nofun⟩
  intro _
  exact ⟨frames ++ [.ended], rest, server'.opener, rfl, by simp, hback.whole rest⟩

/-- How far the reader is from the end. -/
def ClientReader.rank (frames : List Frame) (s : ClientReader Key W) : ℕ :=
  2 * (frames.length + 1 - s.reads.length) + s.phase.rank

/-- Unless it is stopped or has returned, the reader can go on; a full pong channel is drained by
the writer. -/
theorem Receiving.progress (h : Receiving A o₀ frames s) (wire : List UInt8)
    (opener : Opener Key) (hpongs : s.pongs ≤ clientPongCapacity)
    (hrun : s.stopped = none) (hret : s.phase.isReturned = false) :
    ∃ es s', (∀ wo, .writerReturns wo ∉ es) ∧
      (readerSystem A recording wire opener o₀).run s es = some s' ∧
      s'.rank frames < s.rank frames := by
  cases hphase : s.phase with
  | selecting =>
    obtain ⟨todo, rest, o, htodo, hne, hread⟩ := h.todo hret
    obtain ⟨f, todo, rfl⟩ := List.exists_cons_of_ne_nil hne
    have hlen := congrArg List.length htodo
    simp only [List.length_append, List.length_cons, List.length_nil] at hlen
    obtain ⟨g, gs, w, op, hgs, hframe, -⟩ := readN_succ_eq_ok hread
    cases hgs
    refine ⟨[.select],
      { s with wire := w, opener := op, phase := .onFrame f, reads := s.reads ++ [f] },
      by simp, ?_, ?_⟩
    · rw [System.run_singleton]
      show readerStep A recording s .select = _
      simp only [readerStep, hphase, hrun, hframe]
      rfl
    · unfold ClientReader.rank
      rw [hphase]
      dsimp only
      rw [List.length_append, List.length_singleton]
      have hle : (ReaderPhase.onFrame f).rank ≤ 1 := by
        cases f <;> simp [ReaderPhase.onFrame, ReaderPhase.rank]
      have hzero : ReaderPhase.selecting.rank = 0 := rfl
      omega
  | accepting offset data =>
    obtain ⟨hbound, -⟩ := h.accepting offset data hphase
    have hok := accept_recording_inBounds s.output hbound
    refine ⟨[.accept],
      { s with output := (s.output.accept recording offset data).2, phase := .selecting },
      by simp, ?_, ?_⟩
    · rw [System.run_singleton]
      show readerStep A recording s .accept = _
      simp only [readerStep, hphase]
      rw [hok]
    · unfold ClientReader.rank
      rw [hphase]
      exact Nat.lt_succ_self _
  | ponging =>
    by_cases hroom : s.pongs < clientPongCapacity
    · refine ⟨[.pong], { s with pongs := s.pongs + 1, phase := .selecting }, by simp, ?_, ?_⟩
      · rw [System.run_singleton]
        show readerStep A recording s .pong = _
        simp only [readerStep, hphase, hrun]
        simp [hroom]
      · unfold ClientReader.rank
        rw [hphase]
        exact Nat.lt_succ_self _
    · have hcap : clientPongCapacity = 8 := rfl
      have hpos : 0 < s.pongs := by omega
      have hmore : s.pongs - 1 < clientPongCapacity := by omega
      refine ⟨[.takePong, .pong], { s with pongs := s.pongs - 1 + 1, phase := .selecting },
        by simp, ?_, ?_⟩
      · rw [System.run_cons, Option.bind_eq_some_iff]
        refine ⟨{ s with pongs := s.pongs - 1 }, ?_, ?_⟩
        · show readerStep A recording s .takePong = _
          simp only [readerStep, hrun]
          simp [hpos]
        · rw [System.run_singleton]
          show readerStep A recording { s with pongs := s.pongs - 1 } .pong = _
          simp only [readerStep, hphase, hrun]
          simp [hmore]
      · unfold ClientReader.rank
        rw [hphase]
        exact Nat.lt_succ_self _
  | returned res =>
    rw [hphase] at hret
    cases hret

/-- A reader that is not stopped can read on to `Ended`. -/
theorem Receiving.finish {wire : List UInt8} {opener : Opener Key}
    (h : Receiving A o₀ frames s) (hf : ∀ f ∈ frames, f.FromServer)
    (hpongs : s.pongs ≤ clientPongCapacity) (hrun : s.stopped = none) :
    ∃ es s', (∀ wo, .writerReturns wo ∉ es) ∧
      (readerSystem A recording wire opener o₀).run s es = some s' ∧
      s'.phase = .returned (.ok .ended) := by
  induction hn : s.rank frames using Nat.strong_induction_on generalizing s with
  | _ n ih =>
    cases hret : s.phase.isReturned with
    | true =>
      obtain ⟨res, hres⟩ : ∃ res, s.phase = .returned res := by
        cases hphase : s.phase with
        | returned res => exact ⟨res, rfl⟩
        | _ => rw [hphase] at hret; cases hret
      rcases h.returned res hres with ⟨-, rfl, -⟩ | ⟨hstop, -⟩
      · exact ⟨[], s, fun _ => List.not_mem_nil, rfl, hres⟩
      · exact absurd hrun hstop
    | false =>
      obtain ⟨es, s₁, hes, h₁, hlt⟩ := h.progress wire opener hpongs hrun hret
      obtain ⟨es', s', hes', h₂, hend⟩ := ih (s₁.rank frames) (hn ▸ hlt) (h.run hf h₁)
        (run_pongs h₁ hpongs) ((run_stopped h₁).2 ⟨hrun, hes⟩) rfl
      refine ⟨es ++ es', s', ?_, System.run_trans h₁ h₂, hend⟩
      intro wo hmem
      rcases List.mem_append.1 hmem with hmem | hmem
      · exact hes wo hmem
      · exact hes' wo hmem

/-- From here on, if the writer does not return any more, `connect_once` can return, and then
returns `Ok(Ended)` with every output frame written and committed. -/
def EndsCommitted (A : Aead Key) (wire : List UInt8) (opener : Opener Key)
    (o₀ : SessionOutput (List (Transcript.Segment UInt8))) (frames : List Frame)
    (s : ClientReader Key (List (Transcript.Segment UInt8))) : Prop :=
  (∃ es s', (∀ wo, .writerReturns wo ∉ es) ∧
    (readerSystem A recording wire opener o₀).run s es = some s' ∧
    s'.result = some (.ok .ended)) ∧
  ∀ es s' r, (∀ wo, .writerReturns wo ∉ es) →
    (readerSystem A recording wire opener o₀).run s es = some s' → s'.result = some r →
    r = .ok .ended ∧ s'.output = o₀.acceptAll recording (outputCalls frames)

/-- Stopped by a failing writer, the reader does not return `Ended` any more. -/
theorem Receiving.not_endsCommitted {wire : List UInt8} {opener : Opener Key}
    (h : Receiving A o₀ frames s) (hf : ∀ f ∈ frames, f.FromServer)
    (hdis : s.stopped = some .disconnected) : ¬ EndsCommitted A wire opener o₀ frames s := by
  rintro ⟨⟨es, s', -, hrun, hres⟩, -⟩
  have hstop := run_stopped_of_some hdis hrun
  unfold ClientReader.result at hres
  cases hphase : s'.phase with
  | returned ro =>
    rw [hphase, hstop] at hres
    rcases (h.run hf hrun).returned ro hphase with ⟨hnone, -⟩ | ⟨-, rfl⟩
    · rw [hstop] at hnone
      cases hnone
    · cases hres
  | _ => rw [hphase] at hres; cases hres

/-- A reader that is not stopped goes on to `Ended`, and every output frame is committed then. -/
theorem Receiving.endsCommitted {wire : List UInt8} {opener : Opener Key}
    (h : Receiving A o₀ frames s) (hf : ∀ f ∈ frames, f.FromServer)
    (hpongs : s.pongs ≤ clientPongCapacity) (hnone : s.stopped = none) :
    EndsCommitted A wire opener o₀ frames s := by
  have hcalls : outputCalls (frames ++ [Frame.ended]) = outputCalls frames := by
    rw [outputCalls_append]
    simp [outputCalls]
  constructor
  · obtain ⟨es, s', hes, hrun, hphase⟩ := h.finish hf hpongs hnone
    refine ⟨es, s', hes, hrun, ?_⟩
    unfold ClientReader.result
    rw [hphase, (run_stopped hrun).2 ⟨hnone, hes⟩]
  · intro es s' r hes hrun hres
    have h' := h.run hf hrun
    have hnone' := (run_stopped hrun).2 ⟨hnone, hes⟩
    unfold ClientReader.result at hres
    cases hphase : s'.phase with
    | returned ro =>
      rw [hphase, hnone', Option.some.injEq] at hres
      rcases h'.returned ro hphase with ⟨-, rfl, hreads⟩ | ⟨hstop', -⟩
      · refine ⟨hres.symm, ?_⟩
        rw [h'.output (by rw [hphase]; exact fun _ _ => nofun), hreads, hcalls]
      · exact absurd hnone' hstop'
    | _ => rw [hphase] at hres; cases hres

end Ended

/-- **A received `Ended` and a failing writer.**  Frames of the server followed by `Ended` have all
arrived.  After any run of the reader, `connect_once` goes on to return `Ok(Ended)` with every
output frame committed if and only if `client_writer` has not returned `Disconnected` before the
reader had returned. -/
theorem ended_iff_writer_outlasted (A : Aead Key) (hA : A.Lawful) (server server' : Sealer Key)
    (frames : List Frame) (hf : ∀ f ∈ frames, f.FromServer) (records rest : List UInt8)
    (hw : writeFrames A server (frames ++ [.ended]) = (.ok records, server'))
    (o₀ : SessionOutput (List (Transcript.Segment UInt8))) (es : List ReaderEvent)
    (hes : ∀ wo, .writerReturns wo ∈ es → wo = .disconnected)
    (s : ClientReader Key (List (Transcript.Segment UInt8)))
    (hrun : (readerSystem A recording (records ++ rest) server.opener o₀).run
      (.new (records ++ rest) server.opener o₀) es = some s) :
    EndsCommitted A (records ++ rest) server.opener o₀ frames s ↔
      .writerReturns .disconnected ∉ es := by
  have hs := (receiving_new hA hf hw rest).run hf hrun
  have hstop := run_stopped hrun
  constructor
  · intro hends hmem
    -- the writer has returned in this run, and `Disconnected` is all it has returned
    have hne : s.stopped ≠ none := by
      intro hnone
      exact (hstop.1 hnone).2 _ hmem
    obtain ⟨wo, hwo⟩ := Option.ne_none_iff_exists'.1 hne
    rw [hes wo (mem_of_run_stopped rfl hrun hwo)] at hwo
    exact hs.not_endsCommitted hf hwo hends
  · intro hmem
    refine hs.endsCommitted hf (run_pongs hrun (Nat.zero_le _)) (hstop.2 ⟨rfl, ?_⟩)
    intro wo hwo
    rw [hes wo hwo] at hwo
    exact hmem hwo

/-- The records of an `Output` of two bytes and of `Ended`. -/
def goodbye : List UInt8 :=
  [0, 0, 0, 27] ++ List.replicate 16 0 ++ (Frame.output 0 [104, 105]).encode ++
    ([0, 0, 0, 17] ++ List.replicate 16 0 ++ Frame.ended.encode)

theorem writeFrames_goodbye : writeFrames paddingAead (Sealer.new () dirServerToClient)
    ([.output 0 [104, 105]] ++ [.ended]) = (.ok goodbye, ⟨(), dirServerToClient, 2⟩) := rfl

/-- The reader has accepted the first frame, and nothing fails. -/
theorem ended_iff_writer_outlasted_goodbye : ∃ s,
    (readerSystem paddingAead recording (goodbye ++ []) (Sealer.new () dirServerToClient).opener
      (.new [])).run (.new (goodbye ++ []) (Sealer.new () dirServerToClient).opener (.new []))
        [.select, .accept] = some s ∧
      s.output.writer = [.bytes [104, 105]] ∧
      EndsCommitted paddingAead (goodbye ++ []) (Sealer.new () dirServerToClient).opener
        (.new []) [.output 0 [104, 105]] s := by
  have hframes : ∀ f ∈ [Frame.output 0 [104, 105]], f.FromServer := by
    intro f hf
    rw [List.mem_singleton.1 hf]
    exact ⟨by decide, by decide⟩
  refine ⟨_, rfl, rfl, ?_⟩
  exact (ended_iff_writer_outlasted paddingAead paddingAead_lawful (Sealer.new () dirServerToClient)
    ⟨(), dirServerToClient, 2⟩ [.output 0 [104, 105]] hframes goodbye [] writeFrames_goodbye
    (.new []) [.select, .accept] (by simp) _ rfl).2 (by simp)

/-- A heartbeat fails before the reader looks: everything has arrived, and nothing of it is read. -/
theorem failing_writer_loses_ended :
    writeFrames paddingAead (Sealer.new () dirServerToClient)
        ([.output 0 [104, 105]] ++ [.ended]) = (.ok goodbye, ⟨(), dirServerToClient, 2⟩) ∧
      ∃ s, (readerSystem paddingAead recording goodbye (Sealer.new () dirServerToClient).opener
          (.new [])).run (.new goodbye (Sealer.new () dirServerToClient).opener (.new []))
            [.writerReturns .disconnected, .select] = some s ∧
        s.result = some (.ok .disconnected) ∧ s.output = .new [] ∧
        ¬ (s.result = some (.ok .ended) ∧ s.output =
          (SessionOutput.new []).acceptAll recording (outputCalls [.output 0 [104, 105]])) := by
  refine ⟨rfl, _, rfl, rfl, rfl, ?_⟩
  rintro ⟨hres, -⟩
  cases hres

end Thther
