import Thther.Client.Reader
import Thther.Server.ActiveConnection
import Thther.Server.OutputStream
import Thther.Server.WriterLoop

/-!
# What `server_writer` says to `client_reader`

The frames of a connection are those `server_writer` has sent and the one in its hands.  In every
run they are `Output`s in the order of the stream, `Ping`s and `Pong`s, and nothing after an
`Ended`; `client_reader` takes none of them for an error, and a superseded writer adds one at most
(`server_writer_speaks`).
-/

namespace Thther

/-- The frames `server_writer` has sent or is sending. -/
def Conn.frames (k : Conn) : List Frame := k.sent ++ k.writer.inHand

/-- Where the output has got to after a frame. -/
def Frame.endFrom (cursor : ℕ) : Frame → ℕ
  | .output offset bytes => offset.toNat + bytes.length
  | .data _ | .resize _ _ | .ping | .pong | .ack _ | .hello | .ended => cursor

/-- An `Output` starts at or after the end of the one before it, and reaches beyond it. -/
def Frame.Advances (cursor : ℕ) : Frame → Prop
  | .output offset bytes => cursor ≤ offset.toNat ∧ cursor < offset.toNat + bytes.length
  | .data _ | .resize _ _ | .ping | .pong | .ack _ | .hello | .ended => True

/-- Where the output has got to after some frames. -/
def cursorAfter (start : ℕ) (frames : List Frame) : ℕ := frames.foldl Frame.endFrom start

/-- The `Output`s among the frames go through the stream from `start` on. -/
def InStreamOrder (start : ℕ) : List Frame → Prop
  | [] => True
  | f :: frames => f.Advances start ∧ InStreamOrder (f.endFrom start) frames

/-- `client_reader` returns a protocol error for a frame it has read: from its `match`, or from
`accept`. -/
def Frame.Violates {W : Type} (io : Stdout W) (o : SessionOutput W) (f : Frame) : Prop :=
  ∃ what, ReaderPhase.onFrame f = .returned (.error (.fatal (.protocol what))) ∨
    ∃ offset data, ReaderPhase.onFrame f = .accepting offset data ∧
      (o.accept io offset data).1 = .error (.fatal (.protocol what))

/-- A newer connection has become active. -/
def Session.Superseded (s : Session) (c : ℕ) : Prop :=
  (s.conns c).phase.stage ≠ .out ∧ (s.conns c).epoch < s.shared.activeEpoch

/-! ### Frames in stream order -/

theorem cursorAfter_append (start : ℕ) (frames frames' : List Frame) :
    cursorAfter start (frames ++ frames') = cursorAfter (cursorAfter start frames) frames' :=
  List.foldl_append

theorem inStreamOrder_append {start : ℕ} {frames frames' : List Frame} :
    InStreamOrder start (frames ++ frames') ↔
      InStreamOrder start frames ∧ InStreamOrder (cursorAfter start frames) frames' := by
  induction frames generalizing start with
  | nil => exact (and_iff_right trivial).symm
  | cons f frames ih =>
    show _ ∧ InStreamOrder _ (frames ++ frames') ↔ _
    rw [ih, ← and_assoc]
    rfl

/-- A frame without output is in order anywhere. -/
theorem Frame.advances_of_endFrom {f : Frame} (h : ∀ o data, f ≠ .output o data) (cursor : ℕ) :
    f.Advances cursor ∧ f.endFrom cursor = cursor := by
  cases f with
  | output o data => exact absurd rfl (h o data)
  | _ => exact ⟨trivial, rfl⟩

/-- What `server_writer` may send. -/
def Frame.ToClient : Frame → Prop
  | .output _ bytes => bytes.length ≤ maxOutputBytes
  | .ping | .pong | .ended => True
  | .data _ | .resize _ _ | .ack _ | .hello => False

theorem Frame.ToClient.inBounds {f : Frame} (h : f.ToClient)
    (hend : ∀ o data, f = .output o data → o.toNat + data.length < 2 ^ 64) : f.InBounds := by
  cases f with
  | output o data => exact ⟨h, hend o data rfl⟩
  | _ => trivial

/-- The `match` of `client_reader` has an arm for everything `server_writer` may send. -/
theorem Frame.ToClient.expected {f : Frame} (h : f.ToClient) (e : Abort) :
    ReaderPhase.onFrame f ≠ .returned (.error e) := by
  cases f with
  | output o data => exact nofun
  | ping => exact nofun
  | pong => exact nofun
  | ended => exact nofun
  | _ => exact absurd h id

theorem Frame.ToClient.not_violates {W : Type} (io : Stdout W) (o : SessionOutput W) {f : Frame}
    (h : f.ToClient) (hb : f.InBounds) : ¬ f.Violates io o := by
  rintro ⟨what, herr | ⟨offset, data, hacc, herr⟩⟩
  · exact h.expected _ herr
  · have hf : f = .output offset data := by
      cases f with
      | output => cases hacc; rfl
      | _ => cases hacc
    subst hf
    obtain ⟨text, htext⟩ := SessionOutput.accept_error hb.2 herr
    cases htext

/-! ### Every step of the writer -/

/-- What a step of the loop does to the frames: nothing, it takes a frame in hand that moves the
cursor or not, or it drops the one in hand. -/
theorem WriterStepped.frames {shared : SessionShared} {k k' : Conn} {e : ConnEvent}
    (h : WriterStepped shared k e k') :
    (k'.frames = k.frames ∧ k'.cursor = k.cursor) ∨
    (∃ f cursor, k.frames = k.sent ∧ k'.frames = k.sent ++ [f] ∧ k'.cursor = cursor ∧
      k'.writer = .sending f ∧ (serverWriterRead shared.ring k.cursor = some (f, cursor) ∨
        f ∈ [.ping, .pong, .ended] ∧ cursor = k.cursor)) ∨
    (k.frames ≠ k.sent ∧ k'.frames = k.sent ∧ k'.writer = .done ∧ k'.cursor = k.cursor) := by
  cases h with
  | current hw _ => exact Or.inl ⟨by simp [Conn.frames, hw, WriterHalf.inHand], rfl⟩
  | superseded hw _ => exact Or.inl ⟨by simp [Conn.frames, hw, WriterHalf.inHand], rfl⟩
  | enable hw => exact Or.inl ⟨by simp [Conn.frames, hw, WriterHalf.inHand], rfl⟩
  | output f cursor hw hr =>
    exact Or.inr (Or.inl ⟨f, cursor, by simp [Conn.frames, hw, WriterHalf.inHand], rfl, rfl, rfl,
      Or.inl hr⟩)
  | drained hw _ => exact Or.inl ⟨by simp [Conn.frames, hw, WriterHalf.inHand], rfl⟩
  | ending hw _ =>
    exact Or.inr (Or.inl ⟨.ended, _, by simp [Conn.frames, hw, WriterHalf.inHand], rfl, rfl, rfl,
      Or.inr ⟨by simp, rfl⟩⟩)
  | live hw _ => exact Or.inl ⟨by simp [Conn.frames, hw, WriterHalf.inHand], rfl⟩
  | wake hw _ => exact Or.inl ⟨by simp [Conn.frames, hw, WriterHalf.inHand], rfl⟩
  | takePong hw _ =>
    exact Or.inr (Or.inl ⟨.pong, _, by simp [Conn.frames, hw, WriterHalf.inHand], rfl, rfl, rfl,
      Or.inr ⟨by simp, rfl⟩⟩)
  | tick hw =>
    exact Or.inr (Or.inl ⟨.ping, _, by simp [Conn.frames, hw, WriterHalf.inHand], rfl, rfl, rfl,
      Or.inr ⟨by simp, rfl⟩⟩)
  | sent f hw _ => exact Or.inl ⟨by simp [Conn.frames, hw, WriterHalf.inHand], rfl⟩
  | sentEnded hw => exact Or.inl ⟨by simp [Conn.frames, hw, WriterHalf.inHand], rfl⟩
  | failed f hw =>
    exact Or.inr (Or.inr ⟨by simp [Conn.frames, hw, WriterHalf.inHand],
      by simp [Conn.frames, WriterHalf.inHand], rfl, rfl⟩)

/-- A frame has been sent, or none. -/
theorem WriterStepped.sent_eq {shared : SessionShared} {k k' : Conn} {e : ConnEvent}
    (h : WriterStepped shared k e k') :
    k'.sent = k.sent ∨
      ∃ f, k'.sent = k.sent ++ [f] ∧ (f = .ended → k'.writer = .done) := by
  cases h with
  | sent f _ hf => exact Or.inr ⟨f, rfl, fun heq => absurd heq hf⟩
  | sentEnded _ => exact Or.inr ⟨.ended, rfl, fun _ => rfl⟩
  | _ => exact Or.inl rfl

theorem WriterIdle.frames {shared : SessionShared} {k k' : Conn} (h : WriterIdle shared k k') :
    k'.frames = k.frames := by
  rw [Conn.frames, Conn.frames, h.sent, h.writer]

/-- What follows the first element of its kind in a list, when that is only the last one. -/
theorem eq_nil_of_append_singleton {f g : Frame} {frames before after : List Frame}
    (hf : f ∉ frames) (h : frames ++ [g] = before ++ f :: after) : after = [] := by
  rcases List.eq_nil_or_concat after with hnil | ⟨after', x, rfl⟩
  · exact hnil
  · have hsplit : frames ++ [g] = (before ++ f :: after') ++ [x] := by
      rw [h, List.concat_eq_append, List.append_assoc, List.cons_append]
    obtain ⟨rfl, -⟩ := List.append_inj' hsplit rfl
    exact absurd (List.mem_append_right _ List.mem_cons_self) hf

/-- What holds of the frames of a connection, however long the stream. -/
structure Conn.Spoken (k : Conn) : Prop where
  toClient : ∀ f ∈ k.frames, f.ToClient
  last : ∀ before after, k.frames = before ++ .ended :: after → after = []
  ended : .ended ∈ k.sent → k.writer = .done
  silent : k.phase.writing = false → k.frames = []

theorem Conn.Spoken.of_frames {k k' : Conn} (h : k.Spoken) (hf : k'.frames = k.frames)
    (hended : .ended ∈ k'.sent → k'.writer = .done)
    (hw : k'.phase.writing = k.phase.writing) : k'.Spoken where
  toClient f hmem := h.toClient f (by rwa [← hf])
  last before after heq := h.last before after (by rw [← hf, heq])
  ended := hended
  silent hp := by
    rw [hf]
    exact h.silent (by rw [← hw, hp])

theorem Conn.Spoken.step {shared : SessionShared} {k k' : Conn} {e : ConnEvent} (h : k.Spoken)
    (hs : ConnWritten shared k e k') : k'.Spoken := by
  cases hs with
  | start hp =>
    exact ⟨nofun, fun before after heq => by simp [Conn.frames, WriterHalf.inHand] at heq, nofun,
      fun _ => rfl⟩
  | idle e k' _ hi =>
    exact h.of_frames hi.frames (by rw [hi.sent, hi.writer]; exact h.ended) hi.writing
  | writer e k' hrun hstep =>
    have hopen : .ended ∉ k.sent := fun hmem => writer_of_running hrun (h.ended hmem)
    have hended : .ended ∈ k'.sent → k'.writer = .done := by
      intro hmem
      rcases hstep.sent_eq with heq | ⟨f, heq, hdone⟩
      · exact absurd (heq ▸ hmem) hopen
      · rw [heq, List.mem_append, List.mem_singleton] at hmem
        exact hdone (hmem.resolve_left hopen).symm
    obtain ⟨hphase, -, -⟩ := hstep.phase_eq
    have hwriting : k'.phase.writing = true := by
      rw [hphase]
      exact writing_of_running hrun
    rcases hstep.frames with ⟨hf, -⟩ | ⟨f, cursor, hf, hf', -, -, hnew⟩ | ⟨-, hf', -, -⟩
    · exact h.of_frames hf hended (by rw [hphase])
    · refine ⟨fun g hg => ?_, fun before after heq => ?_, hended, fun hp => ?_⟩
      · rw [hf', List.mem_append, List.mem_singleton] at hg
        rcases hg with hg | rfl
        · exact h.toClient g (by rwa [hf])
        · rcases hnew with hr | ⟨hmem, -⟩
          · obtain ⟨o, data, rfl, hlen⟩ := serverWriterRead_output hr
            exact hlen
          · simp only [List.mem_cons, List.not_mem_nil, or_false] at hmem
            rcases hmem with rfl | rfl | rfl <;> trivial
      · rw [hf'] at heq
        exact eq_nil_of_append_singleton hopen heq
      · rw [hwriting] at hp
        cases hp
    · refine ⟨fun g hg => ?_, fun before after heq => ?_, hended, fun hp => ?_⟩
      · rw [hf'] at hg
        exact h.toClient g (List.mem_append_left _ hg)
      · rw [hf'] at heq
        refine absurd ?_ hopen
        rw [heq]
        exact List.mem_append_right _ List.mem_cons_self
      · rw [hwriting] at hp
        cases hp

/-- What holds of the frames while no more than `n` bytes have been appended. -/
structure Conn.InStream (n : ℕ) (k : Conn) : Prop where
  offset_le : k.phase.checked = true ∨ k.phase.writing = true → k.offset.toNat ≤ n
  cursor_le : k.phase.writing = true → k.cursor.toNat ≤ n
  order : InStreamOrder k.offset.toNat k.frames
  ends : ∀ o data, .output o data ∈ k.frames → o.toNat + data.length ≤ n
  cursor : k.phase.writing = true → k.writer ≠ .done →
    cursorAfter k.offset.toNat k.frames = k.cursor.toNat

theorem Conn.InStream.mono {n m : ℕ} {k : Conn} (h : k.InStream n) (hle : n ≤ m) :
    k.InStream m where
  offset_le hp := Nat.le_trans (h.offset_le hp) hle
  cursor_le hp := Nat.le_trans (h.cursor_le hp) hle
  order := h.order
  ends o data hmem := Nat.le_trans (h.ends o data hmem) hle
  cursor := h.cursor

/-- A frame taken in hand goes on from the cursor, and the cursor behind it. -/
theorem Frame.advances_of_new {r : RingBuf} {S : List UInt8} (hring : r.Holds S)
    (hS : S.length < 2 ^ 64) {f : Frame} {cursor cursor' : UInt64} (hle : cursor.toNat ≤ S.length)
    (hnew : serverWriterRead r cursor = some (f, cursor') ∨
      f ∈ [.ping, .pong, .ended] ∧ cursor' = cursor) :
    f.Advances cursor.toNat ∧ f.endFrom cursor.toNat = cursor'.toNat ∧
      cursor'.toNat ≤ S.length ∧
      ∀ o data, f = .output o data → o.toNat + data.length ≤ S.length := by
  rcases hnew with hr | ⟨hmem, rfl⟩
  · obtain ⟨o, data, rfl, -, hnext, hend, hge, hlt, -, -⟩ :=
      hring.serverWriterRead_eq_some hS hr hle
    refine ⟨⟨hge, by omega⟩, hnext.symm, hend, fun o' data' heq => ?_⟩
    cases heq
    omega
  · have hout : ∀ o data, f ≠ .output o data := by
      rintro o data rfl
      simp at hmem
    obtain ⟨hadv, hend⟩ := Frame.advances_of_endFrom hout cursor'.toNat
    exact ⟨hadv, hend, hle, fun o data heq => absurd heq (hout o data)⟩

/-- A step that is none of the writer's. -/
theorem Conn.InStream.idle {shared : SessionShared} {k k' : Conn} {S : List UInt8}
    (h : k.InStream S.length) (hsp : k.Spoken) (hring : shared.ring.Holds S)
    (hS : S.length < 2 ^ 64) (hi : WriterIdle shared k k') : k'.InStream S.length := by
  have hf := hi.frames
  have hoff : k'.phase.writing = true → k'.offset = k.offset := by
    intro hw
    exact hi.offset (Or.inl (by rw [← hi.writing, hw]))
  refine ⟨fun hor => ?_, fun hw => ?_, ?_, fun o data hmem => ?_, fun hw hne => ?_⟩
  · rcases hor with hc | hw
    · rcases hi.checked hc with hc | hle
      · rw [hi.offset (Or.inr hc)]
        exact h.offset_le (Or.inl hc)
      · -- the check of the offset
        rw [UInt64.lt_iff_toNat_lt, SessionShared.currentTotal, hring.toNat_total hS] at hle
        omega
    · rw [hoff hw]
      exact h.offset_le (Or.inr (by rw [← hi.writing, hw]))
  · rw [hi.cursor]
    exact h.cursor_le (by rw [← hi.writing, hw])
  · cases hw : k'.phase.writing with
    | true =>
      rw [hoff hw, hf]
      exact h.order
    | false =>
      rw [hf, hsp.silent (by rw [← hi.writing, hw])]
      trivial
  · rw [hf] at hmem
    exact h.ends o data hmem
  · rw [hoff hw, hf, hi.cursor]
    exact h.cursor (by rw [← hi.writing, hw]) (by rwa [← hi.writer])

theorem Conn.InStream.step {shared : SessionShared} {k k' : Conn} {e : ConnEvent}
    {S : List UInt8} (h : k.InStream S.length) (hsp : k.Spoken) (hring : shared.ring.Holds S)
    (hS : S.length < 2 ^ 64) (hs : ConnWritten shared k e k') : k'.InStream S.length := by
  cases hs with
  | start hp =>
    have hoffset : k.offset.toNat ≤ S.length := h.offset_le (Or.inl (by rw [hp]; rfl))
    exact ⟨fun _ => hoffset, fun _ => hoffset, trivial, nofun, fun _ _ => rfl⟩
  | idle e k' _ hi => exact h.idle hsp hring hS hi
  | writer e k' hrun hstep =>
    have hw := writing_of_running hrun
    have hcursor := h.cursor hw (writer_of_running hrun)
    obtain ⟨-, hoff, -⟩ := hstep.phase_eq
    have hoffset : k'.offset.toNat ≤ S.length := by
      rw [hoff]
      exact h.offset_le (Or.inr hw)
    rcases hstep.frames with ⟨hf, hc⟩ | ⟨f, cursor, hf, hf', rfl, -, hnew⟩ | ⟨-, hf', hdone, hc⟩
    · refine ⟨fun _ => hoffset, fun _ => ?_, ?_, fun o data hmem => ?_, fun _ _ => ?_⟩
      · rw [hc]
        exact h.cursor_le hw
      · rw [hoff, hf]
        exact h.order
      · rw [hf] at hmem
        exact h.ends o data hmem
      · rw [hoff, hc, hf, hcursor]
    · obtain ⟨hadv, hend, hle, hbound⟩ := Frame.advances_of_new hring hS (h.cursor_le hw) hnew
      rw [hf] at hcursor
      refine ⟨fun _ => hoffset, fun _ => hle, ?_, fun o data hmem => ?_, fun _ _ => ?_⟩
      · rw [hoff, hf', inStreamOrder_append, hcursor, ← hf]
        exact ⟨h.order, hadv, trivial⟩
      · rw [hf', List.mem_append, List.mem_singleton] at hmem
        rcases hmem with hmem | heq
        · exact h.ends o data (by rwa [hf])
        · exact hbound o data heq.symm
      · rw [hoff, hf', cursorAfter_append, hcursor]
        exact hend
    · refine ⟨fun _ => hoffset, fun _ => ?_, ?_, fun o data hmem => ?_, fun _ hne =>
        absurd hdone hne⟩
      · rw [hc]
        exact h.cursor_le hw
      · rw [hoff, hf']
        exact (inStreamOrder_append.1 h.order).1
      · rw [hf'] at hmem
        exact h.ends o data (List.mem_append_left _ hmem)

theorem spoken_of_reachable {s : Session} (hs : sessionSystem.Reachable s) (c : ℕ) :
    (s.conns c).Spoken := by
  refine System.invariant (I := fun s : Session => ∀ c, (s.conns c).Spoken) ?_ ?_ hs c
  · rintro s ⟨_, _, _, _, _, rfl⟩ c
    exact ⟨nofun, fun before after heq => by
      simp [Conn.frames, Session.new, Conn.new, WriterHalf.inHand] at heq, nofun, fun _ => rfl⟩
  · intro s e s' h hst c
    rcases sessionStep_conn_cases hst c with ⟨-, hc | hc⟩ | ⟨e', -, hc⟩
    · rw [hc]
      exact h c
    · rw [hc]
      exact (h c).of_frames rfl (h c).ended rfl
    · exact (h c).step (connStep_written hc)

theorem inStream_of_reachable {s : Session} (hs : sessionSystem.Reachable s)
    (hlen : s.appended.length < 2 ^ 64) (c : ℕ) : (s.conns c).InStream s.appended.length := by
  induction hs with
  | init hi =>
    obtain ⟨_, _, _, _, _, rfl⟩ := hi
    exact ⟨fun hor => (by rcases hor with hp | hp <;> cases hp), nofun, trivial, nofun, nofun⟩
  | @step s s' e hs _ hst ih =>
    obtain ⟨htaken, hstreamed⟩ := streamed_of_reachable hs
    have hle := htaken.appended_le hst
    have hlen₀ : s.appended.length < 2 ^ 64 := Nat.lt_of_le_of_lt hle hlen
    have h := ih hlen₀
    rcases sessionStep_conn_cases hst c with ⟨-, hc | hc⟩ | ⟨e', -, hc⟩
    · rw [hc]
      exact h.mono hle
    · rw [hc]
      exact (⟨h.offset_le, h.cursor_le, h.order, h.ends, h.cursor⟩ :
        (s.conns c).wake.InStream s.appended.length).mono hle
    · exact (h.step (spoken_of_reachable hs c) (hstreamed hlen₀).ring hlen₀
        (connStep_written hc)).mono hle

/-! ### A superseded writer -/

/-- The frames `server_writer` may still send before it looks at the epoch again. -/
def WriterHalf.mayWrite : WriterHalf → ℕ
  | .checking | .done => 0
  | .enabling | .draining | .checkingEnded | .waiting | .sending _ => 1

theorem WriterHalf.length_inHand (w : WriterHalf) : w.inHand.length ≤ w.mayWrite := by
  cases w <;> simp [WriterHalf.inHand, WriterHalf.mayWrite]

theorem sessionStep_activeEpoch_le {s s' : Session} {e : SessionEvent}
    (h : sessionStep s e = some s') : s.shared.activeEpoch ≤ s'.shared.activeEpoch := by
  cases sessionStep_cases h with
  | background e s' _ hb => rw [hb.epoch]
  | rotate i psk _ => exact Nat.le_refl _
  | conn c e shared k hk =>
    cases connStep_cases hk with
    | quiet e shared' k' _ hq => rw [hq.epoch]
    | fetchAdd _ => exact Nat.le_succ _
    | _ => exact Nat.le_refl _

/-- A connection that has its epoch keeps it. -/
theorem connStep_claimed {shared shared' : SessionShared} {k k' : Conn} {e : ConnEvent}
    (h : connStep shared k e = some (shared', k')) (hk : k.phase.stage ≠ .out) :
    k'.phase.stage ≠ .out ∧ k'.epoch = k.epoch := by
  cases connStep_cases h with
  | quiet e shared' k' _ hq =>
    refine ⟨?_, hq.conn_epoch⟩
    rwa [show k'.phase.stage = k.phase.stage from congrArg Fencing.Client.stage (hq.client 0)]
  | readPsk hp => rw [hp] at hk; exact absurd rfl hk
  | fetchAdd hp => rw [hp] at hk; exact absurd rfl hk
  | leaveLoad hp => exact ⟨by dsimp only; split_ifs <;> exact nofun, rfl⟩
  | storeConnected _ => exact ⟨nofun, rfl⟩
  | leaveStore _ => exact ⟨nofun, rfl⟩
  | input m _ _ => exact ⟨hk, rfl⟩

theorem Session.Superseded.step {s s' : Session} {c : ℕ} {e : SessionEvent} (h : s.Superseded c)
    (hst : sessionStep s e = some s') : s'.Superseded c := by
  have hle := sessionStep_activeEpoch_le hst
  obtain ⟨hstage, hlt⟩ := h
  rcases sessionStep_conn_cases hst c with ⟨-, hc | hc⟩ | ⟨e', -, hc⟩
  · rw [Session.Superseded, hc]
    exact ⟨hstage, by omega⟩
  · rw [Session.Superseded, hc]
    exact ⟨hstage, Nat.lt_of_lt_of_le hlt hle⟩
  · obtain ⟨hstage', hepoch⟩ := connStep_claimed hc hstage
    exact ⟨hstage', by omega⟩

/-- What a superseded writer has sent since it had sent `sent`. -/
def Session.AddsAtMostOne (s : Session) (c : ℕ) (sent : List Frame) : Prop :=
  ∃ more, (s.conns c).sent = sent ++ more ∧ more.length + (s.conns c).writer.mayWrite ≤ 1

theorem Session.AddsAtMostOne.step {s s' : Session} {c : ℕ} {sent : List Frame}
    {e : SessionEvent} (h : s.AddsAtMostOne c sent) (hsup : s.Superseded c)
    (hsp : (s.conns c).Spoken) (hst : sessionStep s e = some s') : s'.AddsAtMostOne c sent := by
  obtain ⟨more, hsent, hlen⟩ := h
  rcases sessionStep_conn_cases hst c with ⟨-, hc | hc⟩ | ⟨e', -, hc⟩
  · exact ⟨more, by rw [hc, hsent], by rwa [hc]⟩
  · exact ⟨more, by rw [hc]; exact hsent, by rw [hc]; exact hlen⟩
  · show ∃ more, (s'.conns c).sent = sent ++ more ∧
      more.length + (s'.conns c).writer.mayWrite ≤ 1
    generalize s'.conns c = k' at hc ⊢
    cases connStep_written hc with
    | start hp =>
      -- nothing has been sent, and the loop starts at the check of the epoch
      have hnil := hsp.silent (by rw [hp]; rfl)
      rw [Conn.frames, hsent, List.append_assoc] at hnil
      exact ⟨[], by rw [(List.append_eq_nil_iff.1 hnil).1]; rfl, Nat.zero_le _⟩
    | idle e k' _ hi => exact ⟨more, by rw [hi.sent, hsent], by rwa [hi.writer]⟩
    | writer e k' hrun hstep =>
      cases hstep with
      | current _ hcur =>
        rw [SessionShared.isCurrent_eq_true] at hcur
        have := hsup.2
        omega
      | sent f hw _ =>
        rw [hw] at hlen
        refine ⟨more ++ [f], by rw [hsent, List.append_assoc], ?_⟩
        rw [List.length_append]
        exact hlen
      | sentEnded hw =>
        rw [hw] at hlen
        refine ⟨more ++ [.ended], by rw [hsent, List.append_assoc], ?_⟩
        rw [List.length_append]
        exact hlen
      | output f cursor hw _ =>
        rw [hw] at hlen
        exact ⟨more, hsent, hlen⟩
      | failed f hw =>
        rw [hw] at hlen
        exact ⟨more, hsent, Nat.le_of_succ_le hlen⟩
      | _ hw =>
        rw [hw] at hlen
        refine ⟨more, hsent, ?_⟩
        first
          | exact hlen
          | exact Nat.le_of_succ_le hlen

theorem Session.Superseded.run {s s' : Session} {c : ℕ} {es : List SessionEvent}
    (hs : sessionSystem.Reachable s) (h : s.Superseded c)
    (hrun : sessionSystem.run s es = some s') :
    s'.Superseded c ∧ s'.AddsAtMostOne c (s.conns c).sent := by
  have hstart : s.AddsAtMostOne c (s.conns c).sent := by
    refine ⟨[], (List.append_nil _).symm, ?_⟩
    cases (s.conns c).writer <;> simp [WriterHalf.mayWrite]
  have hinv := System.run_invariant (I := fun s' : Session => sessionSystem.Reachable s' ∧
    s'.Superseded c ∧ s'.AddsAtMostOne c (s.conns c).sent)
    (fun s e s' ⟨hr, hsup, hadds⟩ hst => ⟨hr.step trivial hst, hsup.step hst,
      hadds.step hsup (spoken_of_reachable hr c) hst⟩) ⟨hs, h, hstart⟩ hrun
  exact hinv.2

/-- At the top of its loop a superseded writer stops. -/
theorem Session.Superseded.stops {s : Session} {c : ℕ} (h : s.Superseded c)
    (hrun : (s.conns c).running = true) (hw : (s.conns c).writer = .checking) :
    ∃ s', sessionStep s (.conn c .checkCurrent) = some s' ∧ (s'.conns c).writer = .done := by
  have hcur : ¬ s.shared.isCurrent (s.conns c).epoch = true := by
    rw [SessionShared.isCurrent_eq_true]
    exact fun heq => absurd h.2 (by omega)
  simp only [sessionStep, connStep, hrun, hw, true_and, if_true, if_neg hcur]
  exact ⟨_, rfl, by dsimp only; rw [Function.update_self]⟩

/-- What `server_writer` keeps to towards `client_reader`, in a state of a run. -/
structure Session.Speaks (s : Session) (c : ℕ) : Prop where
  /-- Every frame is one that `client_reader` has an arm for, and an `Output` is short enough. -/
  toClient : ∀ f ∈ (s.conns c).frames, f.ToClient ∧
    ∀ e, ReaderPhase.onFrame f ≠ .returned (.error e)
  /-- Nothing comes after `Ended`. -/
  last : ∀ before after, (s.conns c).frames = before ++ .ended :: after → after = []
  /-- Every frame decodes, and is no violation whatever the client's stdout and offset. -/
  decodes : s.appended.length < 2 ^ 64 → ∀ f ∈ (s.conns c).frames,
    Frame.decode f.encode = .ok f ∧
      ∀ (W : Type) (io : Stdout W) (o : SessionOutput W), ¬ f.Violates io o
  order : s.appended.length < 2 ^ 64 → InStreamOrder (s.conns c).offset.toNat (s.conns c).frames
  /-- The cursor is where the frames end. -/
  cursor : s.appended.length < 2 ^ 64 → (s.conns c).phase.writing = true →
    (s.conns c).writer ≠ .done →
    cursorAfter (s.conns c).offset.toNat (s.conns c).frames = (s.conns c).cursor.toNat
  /-- From the takeover on, one frame more at most, and the end at the next check. -/
  fenced : s.Superseded c → ∀ es s', sessionSystem.run s es = some s' →
    (∃ more, (s'.conns c).frames = (s.conns c).sent ++ more ∧ more.length ≤ 1) ∧
      ((s'.conns c).running = true → (s'.conns c).writer = .checking →
        ∃ s'', sessionStep s' (.conn c .checkCurrent) = some s'' ∧ (s''.conns c).writer = .done)

/-- **`server_writer` speaks the protocol `client_reader` enforces**, in every run and on every
connection. -/
theorem server_writer_speaks (s : Session) (hs : sessionSystem.Reachable s) (c : ℕ) :
    s.Speaks c := by
  have hsp := spoken_of_reachable hs c
  refine ⟨fun f hf => ⟨hsp.toClient f hf, (hsp.toClient f hf).expected⟩, hsp.last,
    fun hlen f hf => ?_, fun hlen => (inStream_of_reachable hs hlen c).order,
    fun hlen => (inStream_of_reachable hs hlen c).cursor, fun hsup es s' hrun => ?_⟩
  · have hin := inStream_of_reachable hs hlen c
    have hbound : f.InBounds := by
      refine (hsp.toClient f hf).inBounds fun o data heq => ?_
      subst heq
      exact Nat.lt_of_le_of_lt (hin.ends o data hf) hlen
    exact ⟨Frame.decode_encode hbound,
      fun W io o => (hsp.toClient f hf).not_violates io o hbound⟩
  · obtain ⟨hsup', more, hsent, hlen⟩ := hsup.run hs hrun
    refine ⟨⟨more ++ (s'.conns c).writer.inHand, ?_, ?_⟩, hsup'.stops⟩
    · rw [Conn.frames, hsent, List.append_assoc]
    · have := (s'.conns c).writer.length_inHand
      rw [List.length_append]
      omega

/-- A connection sends the first byte, and is superseded with a `Ping` in its hands. -/
def supersededRun : List SessionEvent :=
  handshake 0 0 ++ [.conn 0 .fetchAdd, .conn 0 .storeConnected, .shellWrite [1], .ptyRead 1,
    .ptyAppend, .ptyNotify, .conn 0 .checkCurrent, .conn 0 .enable, .conn 0 .drain,
    .conn 0 (.send true), .conn 0 .checkCurrent, .conn 0 .enable, .conn 0 .drain,
    .conn 0 .checkEnded, .conn 0 .tick] ++ handshake 1 1 ++ [.conn 1 .fetchAdd]

theorem server_writer_speaks_superseded :
    ∃ s, sessionSystem.run freshSession supersededRun = some s ∧
      (s.conns 0).frames = [.output 0 [1], .ping] ∧ s.Superseded 0 ∧ s.Speaks 0 := by
  have hrun : sessionSystem.run freshSession supersededRun = some _ := rfl
  exact ⟨_, hrun, rfl, ⟨nofun, by decide⟩, server_writer_speaks _
    (System.reachable_of_run supersededRun initial_freshSession hrun) 0⟩

end Thther
