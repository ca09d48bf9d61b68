import Thther.Server.ActiveConnection
import Thther.Server.OutputStream
import Thther.Server.WriterLoop

/-!
# `Ended` and the end of the output

`server_writer` reads the ring, finds it drained, and then reads `ended`, which the PTY reader
thread and the reaper thread both set.  Whatever the shell wrote before it exited has been sent
when `Ended` is, in the runs where that read of the ring already saw it (`ended_after_output`);
nothing in the code waits for that, and from the first `Ended` sent too early the bytes are
withheld.
-/

namespace Thther

open Fencing (Action)

/-- An `Output` frame among these carries byte `i` of the stream. -/
def Carries (stream : List UInt8) (frames : List Frame) (i : ℕ) : Prop :=
  ∃ offset data b, .output offset data ∈ frames ∧ offset.toNat ≤ i ∧
    data[i - offset.toNat]? = some b ∧ stream[i]? = some b

/-- Byte `i` of the output is below the resume offset, has been evicted, or is in the frames. -/
def Session.Accounted (s : Session) (offset : UInt64) (frames : List Frame) (i : ℕ) : Prop :=
  i < offset.toNat ∨ i < s.shared.ring.start.toNat ∨ Carries s.shell.written frames i

/-- So is every byte the shell had written when it exited. -/
def Session.AllAccounted (s : Session) (offset : UInt64) (frames : List Frame) : Prop :=
  ∀ n, s.shell.exitedAt = some n → ∀ i < n, s.Accounted offset frames i

/-- `Ended` is the last frame of a connection, and no output is missing before it. -/
def Session.EndedLast (s : Session) : Prop :=
  ∀ c, .ended ∈ (s.conns c).sent →
    ∃ frames, (s.conns c).sent = frames ++ [.ended] ∧ s.AllAccounted (s.conns c).offset frames

/-- Where `Ended` is written, the last read of the ring saw everything the shell had written when
it exited, or all of that has been evicted. -/
def DrainedAtEnd (t : Session × History) : SessionEvent → Prop
  | .conn c (.send true) => (t.1.conns c).writer = .sending .ended →
      ∀ n, t.1.shell.exitedAt = some n →
        n ≤ (t.2.drained c).toNat ∨ n ≤ t.1.shared.ring.start.toNat
  | _ => True

/-! ### What the invariant says -/

/-- What holds of a `server_writer` that started at `offset`: its cursor is where its frames end,
everything before it is accounted for, and it sends nothing after `Ended`. -/
structure WriterOk (s : Session) (drained : UInt64) (offset cursor : UInt64) (writer : WriterHalf)
    (sent : List Frame) : Prop where
  offset_le : offset.toNat ≤ cursor.toNat
  cursor_le : cursor.toNat ≤ s.appended.length
  accounted : writer ≠ .done → ∀ i < cursor.toNat, s.Accounted offset (sent ++ writer.inHand) i
  within : ∀ o data, .output o data ∈ sent ++ writer.inHand →
    o.toNat + data.length ≤ cursor.toNat
  drained : writer = .checkingEnded ∨ writer = .sending .ended → cursor = drained
  ending : writer = .sending .ended → s.shared.ended = true
  ended : .ended ∈ sent → writer = .done ∧ s.shared.ended = true ∧
    ∃ frames, sent = frames ++ [.ended] ∧ s.AllAccounted offset frames

/-- What holds of a connection's output: none before the writer has started, from an offset inside
the stream once it is checked. -/
def Conn.OutputOk (s : Session) (drained : UInt64) (k : Conn) : Prop :=
  match k.phase with
  | .serving | .leaving | .clearing | .left =>
    WriterOk s drained k.offset k.cursor k.writer k.sent
  | .sized | .replied | .authenticated | .greeted | .activating =>
    k.sent = [] ∧ k.offset.toNat ≤ s.appended.length
  | _ => k.sent = []

/-- The ring holds what the PTY reader has appended, `ended` is set after the shell's exit only,
and every connection's output is in order. -/
structure OutputInv (t : Session × History) : Prop where
  ring : t.1.shared.ring.Holds t.1.appended
  pending : t.1.appended ++ t.1.ptyReader.pending = t.1.shell.written.take t.1.shell.taken
  taken_le : t.1.shell.taken ≤ t.1.shell.written.length
  ended : t.1.shared.ended = true → t.1.shell.exitedAt ≠ none
  eof : t.1.ptyReader = .eof → t.1.shell.exitedAt ≠ none
  hungUp : t.1.shell.hungUp = true → t.1.shell.exitedAt ≠ none
  conns : ∀ c, (t.1.conns c).OutputOk t.1 (t.2.drained c)

/-! ### What grows -/

/-- The output of `s'` is that of `s`, and maybe more. -/
structure Session.Grows (s s' : Session) : Prop where
  written : s.shell.written <+: s'.shell.written
  appended : s.appended.length ≤ s'.appended.length
  start : s.shared.ring.start.toNat ≤ s'.shared.ring.start.toNat
  ended : s.shared.ended = true → s'.shared.ended = true
  exitedAt : s.shared.ended = true → s'.shell.exitedAt = s.shell.exitedAt

theorem Carries.mono {stream stream' : List UInt8} {frames frames' : List Frame} {i : ℕ}
    (h : Carries stream frames i) (hs : stream <+: stream')
    (hf : ∀ o data, .output o data ∈ frames → .output o data ∈ frames') :
    Carries stream' frames' i := by
  obtain ⟨o, data, b, hmem, hle, hdata, hb⟩ := h
  refine ⟨o, data, b, hf o data hmem, hle, hdata, ?_⟩
  obtain ⟨more, rfl⟩ := hs
  rw [List.getElem?_append_left (List.getElem?_eq_some_iff.1 hb).1]
  exact hb

theorem Session.Accounted.mono {s s' : Session} {offset : UInt64} {frames frames' : List Frame}
    {i : ℕ} (h : s.Accounted offset frames i) (hs : s.Grows s')
    (hf : ∀ o data, .output o data ∈ frames → .output o data ∈ frames') :
    s'.Accounted offset frames' i := by
  have hstart := hs.start
  rcases h with h | h | h
  · exact Or.inl h
  · exact Or.inr (Or.inl (by omega))
  · exact Or.inr (Or.inr (h.mono hs.written hf))

theorem Session.Grows.refl (s : Session) : s.Grows s :=
  ⟨List.prefix_rfl, Nat.le_refl _, Nat.le_refl _, id, fun _ => rfl⟩

theorem Session.Accounted.of_outputs {s : Session} {offset : UInt64} {frames frames' : List Frame}
    {i : ℕ} (h : s.Accounted offset frames i)
    (hf : ∀ o data, .output o data ∈ frames → .output o data ∈ frames') :
    s.Accounted offset frames' i :=
  h.mono (Session.Grows.refl s) hf

theorem WriterOk.grow {s s' : Session} {drained offset cursor : UInt64} {writer : WriterHalf}
    {sent : List Frame} (h : WriterOk s drained offset cursor writer sent) (hs : s.Grows s') :
    WriterOk s' drained offset cursor writer sent where
  offset_le := h.offset_le
  cursor_le := Nat.le_trans h.cursor_le hs.appended
  accounted hw i hi := (h.accounted hw i hi).mono hs fun _ _ => id
  within := h.within
  drained := h.drained
  ending hw := hs.ended (h.ending hw)
  ended hmem := by
    obtain ⟨hdone, hended, frames, hsent, hall⟩ := h.ended hmem
    refine ⟨hdone, hs.ended hended, frames, hsent, fun n hn i hi => ?_⟩
    rw [hs.exitedAt hended] at hn
    exact (hall n hn i hi).mono hs fun _ _ => id

theorem Conn.OutputOk.grow {s s' : Session} {drained : UInt64} {k : Conn}
    (h : k.OutputOk s drained) (hs : s.Grows s') : k.OutputOk s' drained := by
  unfold Conn.OutputOk at h ⊢
  split at h
  all_goals first
    | exact h.grow hs
    | exact ⟨h.1, Nat.le_trans h.2 hs.appended⟩
    | exact h

/-! ### The steps of a connection -/

section Writer

variable {s : Session} {drained drained' offset cursor : UInt64} {writer writer' : WriterHalf}
  {sent : List Frame}

/-- A writer starts at its resume offset. -/
theorem WriterOk.start (h : offset.toNat ≤ s.appended.length) :
    WriterOk s drained offset offset .checking [] where
  offset_le := Nat.le_refl _
  cursor_le := h
  accounted _ i hi := Or.inl hi
  within := nofun
  drained hor := by rcases hor with hor | hor <;> cases hor
  ending := nofun
  ended := nofun

/-- The writer's next step with no output in it. -/
theorem WriterOk.goto (h : WriterOk s drained offset cursor writer sent) (hw : writer ≠ .done)
    (hout : ∀ o data, .output o data ∈ writer.inHand ↔ .output o data ∈ writer'.inHand)
    (hdrained : writer' = .checkingEnded ∨ writer' = .sending .ended → cursor = drained')
    (hending : writer' = .sending .ended → s.shared.ended = true) :
    WriterOk s drained' offset cursor writer' sent where
  offset_le := h.offset_le
  cursor_le := h.cursor_le
  accounted _ i hi := (h.accounted hw i hi).of_outputs fun o data hmem => by
    rw [List.mem_append] at hmem ⊢
    exact hmem.imp id (hout o data).1
  within o data hmem := by
    refine h.within o data ?_
    rw [List.mem_append] at hmem ⊢
    exact hmem.imp id (hout o data).2
  drained := hdrained
  ending := hending
  ended hmem := absurd (h.ended hmem).1 hw

/-- `server_writer` gives up. -/
theorem WriterOk.giveUp (h : WriterOk s drained offset cursor writer sent) (hw : writer ≠ .done) :
    WriterOk s drained offset cursor .done sent where
  offset_le := h.offset_le
  cursor_le := h.cursor_le
  accounted hne := absurd rfl hne
  within o data hmem := h.within o data (by
    rw [List.mem_append] at hmem ⊢
    exact hmem.imp id nofun)
  drained hor := by rcases hor with hor | hor <;> cases hor
  ending hor := by cases hor
  ended hmem := absurd (h.ended hmem).1 hw

/-- A read of the ring with something to send: the frame covers the stream up to the new cursor,
and what it skips has been evicted. -/
theorem WriterOk.drainSome (h : WriterOk s drained offset cursor writer sent)
    (hw : writer ≠ .done) (hin : writer.inHand = []) (hring : s.shared.ring.Holds s.appended)
    (hlen : s.appended.length < 2 ^ 64) {f : Frame} {cursor' : UInt64}
    (hr : serverWriterRead s.shared.ring cursor = some (f, cursor')) :
    WriterOk s drained' offset cursor' (.sending f) sent := by
  obtain ⟨o, data, rfl, hmax, hnext, hend, hge, hadv, hdata, hskip⟩ :=
    hring.serverWriterRead_eq_some hlen hr h.cursor_le
  have hoffset := h.offset_le
  refine ⟨by omega, hend, fun _ i hi => ?_, fun o' data' hmem => ?_, ?_, nofun, fun hmem =>
    absurd (h.ended hmem).1 hw⟩
  · by_cases hold : i < cursor.toNat
    · refine (h.accounted hw i hold).of_outputs fun o' data' hmem => ?_
      rw [hin, List.append_nil] at hmem
      exact List.mem_append_left _ hmem
    by_cases hgap : i < o.toNat
    · -- the frame starts at the first byte the ring retains
      refine Or.inr (Or.inl ?_)
      rw [← hskip (by omega)]
      exact hgap
    · have hi' : i - o.toNat < data.length := by omega
      refine Or.inr (Or.inr ⟨o, data, data[i - o.toNat], ?_, by omega,
        List.getElem?_eq_getElem hi', ?_⟩)
      · exact List.mem_append_right _ (List.mem_singleton_self _)
      · have hsub : data <+: s.shell.written.drop o.toNat :=
          hdata.trans ((List.take_prefix _ _).drop _)
        obtain ⟨more, hmore⟩ := hsub
        have hget : (s.shell.written.drop o.toNat)[i - o.toNat]? = some data[i - o.toNat] := by
          rw [← hmore, List.getElem?_append_left hi', List.getElem?_eq_getElem hi']
        rw [List.getElem?_drop] at hget
        rwa [show o.toNat + (i - o.toNat) = i by omega] at hget
  · rcases List.mem_append.1 hmem with hmem | hmem
    · have := h.within o' data' (List.mem_append_left _ hmem)
      omega
    · cases List.mem_singleton.1 hmem
      omega
  · rintro (hor | hor) <;> cases hor

/-- A read of the ring with nothing to send: the cursor is at the ring's total. -/
theorem WriterOk.drainNone (h : WriterOk s drained offset cursor writer sent)
    (hw : writer ≠ .done) (hin : writer.inHand = []) (hring : s.shared.ring.Holds s.appended)
    (hlen : s.appended.length < 2 ^ 64) (hr : serverWriterRead s.shared.ring cursor = none) :
    WriterOk s s.shared.currentTotal offset cursor .checkingEnded sent := by
  have hge := hring.serverWriterRead_eq_none hlen hr
  have hle := h.cursor_le
  refine h.goto hw (fun o data => ?_) (fun _ => ?_) nofun
  · rw [hin]
    rfl
  · have htotal := hring.toNat_total hlen
    rw [SessionShared.currentTotal, ← UInt64.toNat_inj]
    omega

/-- `write_frame` returns `Ok`.  Before `Ended` everything the shell wrote is accounted for. -/
theorem WriterOk.sendOk {f : Frame} (h : WriterOk s drained offset cursor (.sending f) sent)
    (hall : f = .ended → s.AllAccounted offset sent) :
    WriterOk s drained offset cursor (if f = .ended then .done else .checking) (sent ++ [f]) := by
  have hnot : .ended ∉ sent := fun hmem => nomatch (h.ended hmem).1
  have hin : (if f = .ended then WriterHalf.done else .checking).inHand = [] := by
    split_ifs <;> rfl
  refine ⟨h.offset_le, h.cursor_le, fun _ i hi => ?_, fun o data hmem => ?_, fun hor => ?_,
    fun hor => ?_, fun hmem => ?_⟩
  · rw [hin, List.append_nil]
    exact h.accounted nofun i hi
  · rw [hin, List.append_nil] at hmem
    exact h.within o data hmem
  · split_ifs at hor <;> rcases hor with hor | hor <;> cases hor
  · split_ifs at hor
  · rcases List.mem_append.1 hmem with hmem | hmem
    · exact absurd hmem hnot
    · have hf : f = .ended := (List.mem_singleton.1 hmem).symm
      subst hf
      exact ⟨rfl, h.ending rfl, sent, rfl, hall rfl⟩

end Writer

/-- A step of the writer from which it comes with no output in hand, and not from the drain. -/
theorem WriterOk.pass {s : Session} {drained offset cursor : UInt64} {writer writer' : WriterHalf}
    {sent : List Frame} (h : WriterOk s drained offset cursor writer sent) (hw : writer ≠ .done)
    (hin : writer.inHand = []) (hout : ∀ o data, .output o data ∉ writer'.inHand)
    (hne : writer' ≠ .checkingEnded) (hne' : writer' ≠ .sending .ended) :
    WriterOk s drained offset cursor writer' sent := by
  refine h.goto hw (fun o data => ?_) (fun hor => ?_) fun heq => absurd heq hne'
  · rw [hin]
    exact iff_of_false List.not_mem_nil (hout o data)
  · rcases hor with heq | heq
    · exact absurd heq hne
    · exact absurd heq hne'

/-- A step of the writer. -/
theorem WriterOk.step {s : Session} {drained drained' : UInt64} {k k' : Conn} {e : ConnEvent}
    (h : WriterOk s drained k.offset k.cursor k.writer k.sent) (hw : k.writer ≠ .done)
    (hring : s.shared.ring.Holds s.appended) (hlen : s.appended.length < 2 ^ 64)
    (hs : WriterStepped s.shared k e k') (hkeep : e ≠ .drain → drained' = drained)
    (hdrain : e = .drain → drained' = s.shared.currentTotal)
    (hsend : e = .send true → k.writer = .sending .ended → s.AllAccounted k.offset k.sent) :
    WriterOk s drained' k'.offset k'.cursor k'.writer k'.sent := by
  cases hs with
  | output f cursor hk hr =>
    exact h.drainSome hw (by rw [hk]; rfl) hring hlen hr
  | drained hk hr =>
    rw [hdrain rfl]
    exact h.drainNone hw (by rw [hk]; rfl) hring hlen hr
  | superseded => rw [hkeep nofun]; exact h.giveUp hw
  | failed => rw [hkeep nofun]; exact h.giveUp hw
  | ending hk hended =>
    rw [hkeep nofun]
    refine h.goto hw (by simp [hk, WriterHalf.inHand]) (fun _ => ?_) fun _ => hended
    -- the cursor is where the last read of the ring found it
    exact h.drained (Or.inl hk)
  | sent f hk hf =>
    rw [hkeep nofun]
    rw [hk] at h
    simpa only [hf, if_false] using h.sendOk fun heq => absurd heq hf
  | sentEnded hk =>
    rw [hkeep nofun]
    rw [hk] at h
    simpa only [if_true] using h.sendOk fun _ => hsend rfl hk
  | _ hk =>
    rw [hkeep nofun]
    exact h.pass hw (by rw [hk]; rfl) (by simp [WriterHalf.inHand]) nofun nofun

theorem Conn.outputOk_iff {s : Session} {drained : UInt64} {k : Conn} :
    k.OutputOk s drained ↔
      (k.phase.writing = true → WriterOk s drained k.offset k.cursor k.writer k.sent) ∧
      (k.phase.writing = false → k.sent = []) ∧
      (k.phase.checked = true → k.offset.toNat ≤ s.appended.length) := by
  unfold Conn.OutputOk
  cases k.phase <;> simp [ConnPhase.writing, ConnPhase.checked]

/-- In a running connection the writer is at work. -/
theorem Conn.OutputOk.of_running {s : Session} {drained : UInt64} {k : Conn}
    (h : k.OutputOk s drained) (hrun : k.running = true) :
    WriterOk s drained k.offset k.cursor k.writer k.sent :=
  (outputOk_iff.1 h).1 (writing_of_running hrun)

theorem Conn.OutputOk.step {s : Session} {drained drained' : UInt64} {k k' : Conn}
    {shared' : SessionShared} {e : ConnEvent} (h : k.OutputOk s drained)
    (hring : s.shared.ring.Holds s.appended) (hlen : s.appended.length < 2 ^ 64)
    (hs : connStep s.shared k e = some (shared', k'))
    (hkeep : e ≠ .drain → drained' = drained)
    (hdrain : e = .drain → drained' = s.shared.currentTotal)
    (hsend : e = .send true → k.running = true → k.writer = .sending .ended →
      s.AllAccounted k.offset k.sent) :
    k'.OutputOk s drained' := by
  rw [outputOk_iff] at h ⊢
  obtain ⟨hwriter, hsilent, hoffset⟩ := h
  cases connStep_written hs with
  | writer e k' hrun hstep =>
    have hw := writing_of_running hrun
    obtain ⟨hphase, -, -⟩ := hstep.phase_eq
    refine ⟨fun _ => (hwriter hw).step (writer_of_running hrun) hring hlen hstep hkeep hdrain
      fun he hk => hsend he hrun hk, fun hp => ?_, fun hp => ?_⟩
    · rw [hphase, hw] at hp
      cases hp
    · rw [hphase, Conn.phase_of_running hrun] at hp
      cases hp
  | start hp =>
    exact ⟨fun _ => .start (hoffset (by rw [hp]; rfl)), fun _ => rfl, nofun⟩
  | idle e k' hne hi =>
    rw [hkeep hne]
    refine ⟨fun hw => ?_, fun hw => ?_, fun hc => ?_⟩
    · rw [hi.writing] at hw
      rw [hi.offset (Or.inl hw), hi.cursor, hi.writer, hi.sent]
      exact hwriter hw
    · rw [hi.sent]
      exact hsilent (by rw [← hi.writing, hw])
    · rcases hi.checked hc with hc | hle
      · rw [hi.offset (Or.inr hc)]
        exact hoffset hc
      · rw [UInt64.lt_iff_toNat_lt, SessionShared.currentTotal, hring.toNat_total hlen] at hle
        omega

/-! ### The steps of a session -/

/-- Everything before the cursor is accounted for, and the cursor is where the ring was drained. -/
theorem WriterOk.allAccounted {s : Session} {drained offset cursor : UInt64} {sent : List Frame}
    (h : WriterOk s drained offset cursor (.sending .ended) sent)
    (hn : ∀ n, s.shell.exitedAt = some n →
      n ≤ drained.toNat ∨ n ≤ s.shared.ring.start.toNat) : s.AllAccounted offset sent := by
  intro n hexit i hi
  rcases hn n hexit with hle | hle
  · have hcursor : cursor = drained := h.drained (Or.inr rfl)
    refine (h.accounted nofun i (by rw [hcursor]; omega)).of_outputs fun o data hmem => ?_
    rcases List.mem_append.1 hmem with hmem | hmem
    · exact hmem
    · cases List.mem_singleton.1 hmem
  · exact Or.inr (Or.inl (by omega))

theorem OutputInv.streamed {t : Session × History} (h : OutputInv t) : t.1.Streamed :=
  ⟨⟨h.pending, h.taken_le⟩, h.ring⟩

/-- The output only grows, and with the session's end its exit is known. -/
theorem OutputInv.grows {t : Session × History} {s' : Session} {e : SessionEvent}
    (h : OutputInv t) (hs : sessionStep t.1 e = some s') (hs' : s'.Streamed) : t.1.Grows s' := by
  have hend := sessionStep_end hs
  refine ⟨sessionStep_written hs, h.streamed.toTaken.appended_le hs, ?_, hend.ended,
    fun hended => hend.exitedAt (h.ended hended)⟩
  -- the window moves on with what is appended
  have hstart := h.ring.start
  have hstart' := hs'.ring.start
  obtain ⟨-, ⟨happ, hring⟩ | ⟨bytes, happ, hring⟩⟩ := h.streamed.toTaken.step hs
  · rw [hring]
  · have hcap : s'.shared.ring.cap = t.1.shared.ring.cap := by rw [hring, RingBuf.append_cap]
    rw [hcap, happ, List.length_append] at hstart'
    omega

/-- A thread that is past its loop has seen the shell's exit. -/
theorem OutputInv.exitedAt_of_past {t : Session × History} (h : OutputInv t) {u : EndThread}
    (hu : t.1.past u = true) : t.1.shell.exitedAt ≠ none := by
  cases u with
  | reader => exact h.eof (by simpa [Session.past] using hu)
  | reaper => exact Option.isSome_iff_ne_none.1 hu

/-- Only a read of the ring by the connection changes what was drained. -/
theorem record_drained (s : Session) (hist : History) {c : ℕ} {e : SessionEvent}
    (he : e ≠ .conn c .drain) : (History.record s hist e).drained c = hist.drained c := by
  cases e with
  | conn d e =>
    cases e with
    | drain => exact Function.update_of_ne (fun hcd => he (by rw [hcd])) _ _
    | _ => rfl
  | attach i e => cases e <;> rfl
  | _ => rfl

theorem OutputInv.step {t t' : Session × History} {e : SessionEvent} (h : OutputInv t)
    (hlen : t'.1.shell.written.length < 2 ^ 64) (hok : DrainedAtEnd t e)
    (hst : tracedSession.step t e = some t') : OutputInv t' := by
  obtain ⟨hs, hh⟩ := System.traced_step_eq_some.1 hst
  have hlen' : t'.1.appended.length < 2 ^ 64 :=
    Nat.lt_of_le_of_lt (Session.appended_length_le _) hlen
  have hstr : t'.1.Streamed := h.streamed.step hs hlen'
  have hgrow := h.grows hs hstr
  have hend := sessionStep_end hs
  have hexit : t.1.shell.exitedAt ≠ none → t'.1.shell.exitedAt ≠ none := by
    intro hne
    rwa [hend.exitedAt hne]
  refine ⟨hstr.ring, hstr.pending, hstr.taken_le, fun hended => hexit ?_, fun heof => hexit ?_,
    fun hhung => hexit ?_, fun c => ?_⟩
  · rcases hend.ended_of hended with hended | ⟨u, hu⟩
    · exact h.ended hended
    · exact h.exitedAt_of_past hu
  · rcases hend.eof_of heof with heof | hhung
    · exact h.eof heof
    · exact h.hungUp hhung
  · rcases hend.hungUp_of hhung with hhung | hne
    · exact h.hungUp hhung
    · exact hne
  · have hc := h.conns c
    rw [hh]
    rcases sessionStep_conn_cases hs c with ⟨hne, heq⟩ | ⟨e', rfl, hconn⟩
    · rw [record_drained t.1 t.2 (hne _)]
      rcases heq with heq | heq
      · rw [heq]
        exact hc.grow hgrow
      · rw [heq]
        exact hc.grow hgrow
    · refine (hc.step h.ring (Nat.lt_of_le_of_lt hgrow.appended hlen') hconn (fun hne => ?_)
        (fun heq => ?_) fun heq hrun hw => ?_).grow hgrow
      · exact record_drained t.1 t.2 fun heq => hne (SessionEvent.conn.inj heq).2
      · subst heq
        exact Function.update_self _ _ _
      · subst heq
        have hwriter := hc.of_running hrun
        rw [hw] at hwriter
        exact hwriter.allAccounted (hok hw)

/-! ### Runs -/

theorem outputInv_init {t : Session × History} (hi : tracedSession.init t) : OutputInv t := by
  obtain ⟨⟨_, _, _, ringBytes, _, hs⟩, hh⟩ := hi
  rw [show t = (t.1, t.2) from rfl, hs, hh]
  exact ⟨RingBuf.holds_new ringBytes, rfl, Nat.le_refl _, nofun, nofun, nofun, fun c => rfl⟩

theorem outputInv_of_drainedAtEnd {t : Session × History}
    (ht : tracedSession.ReachableWith DrainedAtEnd t)
    (hlen : t.1.shell.written.length < 2 ^ 64) : OutputInv t := by
  refine System.invariant_with (I := fun t => t.1.shell.written.length < 2 ^ 64 → OutputInv t)
    (fun t hi _ => outputInv_init hi) (fun t e t' ih hok hst hlen' => ?_) ht hlen
  have hle := (sessionStep_written (System.traced_step_eq_some.1 hst).1).length_le
  exact (ih (Nat.lt_of_le_of_lt hle hlen')).step hlen' hok hst

theorem OutputInv.endedLast {t : Session × History} (h : OutputInv t) : t.1.EndedLast := by
  intro c hmem
  have hc := h.conns c
  unfold Conn.OutputOk at hc
  split at hc
  · exact (hc.ended hmem).2.2
  · exact (hc.ended hmem).2.2
  · exact (hc.ended hmem).2.2
  · exact (hc.ended hmem).2.2
  all_goals
    exfalso
    first
      | rw [hc] at hmem; cases hmem
      | rw [hc.1] at hmem; cases hmem

/-- The byte the ring did not have yet is in no frame. -/
theorem WriterOk.not_accounted {s : Session} {drained offset cursor : UInt64} {sent : List Frame}
    (h : WriterOk s drained offset cursor (.sending .ended) sent) {i : ℕ}
    (hi : drained.toNat ≤ i) (hstart : s.shared.ring.start.toNat ≤ i) :
    ¬ s.Accounted offset sent i := by
  have hcursor : cursor = drained := h.drained (Or.inr rfl)
  have hoffset := h.offset_le
  rw [hcursor] at hoffset
  rintro (hlt | hlt | ⟨o, data, b, hmem, hle, hb, -⟩)
  · omega
  · omega
  · have hend := h.within o data (List.mem_append_left _ hmem)
    have hget := (List.getElem?_eq_some_iff.1 hb).1
    rw [hcursor] at hend
    omega

/-- **`Ended` comes after all output** in every run that keeps to `DrainedAtEnd`, of output shorter
than `2 ^ 64`; the first `Ended` sent against it leaves output behind. -/
theorem ended_after_output (t : Session × History)
    (ht : tracedSession.ReachableWith DrainedAtEnd t)
    (hlen : t.1.shell.written.length < 2 ^ 64) :
    t.1.EndedLast ∧
      ∀ e t', ¬ DrainedAtEnd t e → tracedSession.step t e = some t' → ¬ t'.1.EndedLast := by
  have hinv := outputInv_of_drainedAtEnd ht hlen
  refine ⟨hinv.endedLast, fun e t' hok hst hlast => ?_⟩
  cases e with
  | conn c e =>
    cases e with
    | send ok =>
      cases ok with
      | false => exact hok trivial
      | true =>
        simp only [DrainedAtEnd, Classical.not_imp, not_forall, not_or, not_le] at hok
        obtain ⟨hw, n, hn, hdrained, hstart⟩ := hok
        obtain ⟨shared, k, hc, hs⟩ := sessionStep_conn (System.traced_step_eq_some.1 hst).1
        simp only [connStep, hw, if_true] at hc
        split_ifs at hc with hrun
        cases hc
        have hok := (hinv.conns c).of_running hrun
        rw [hw] at hok
        have hlast := hlast c
        rw [hs] at hlast
        dsimp only at hlast
        rw [Function.update_self] at hlast
        obtain ⟨frames, hsent, hall⟩ := hlast (List.mem_append_right _ (List.mem_singleton_self _))
        obtain rfl := List.append_cancel_right hsent
        exact hok.not_accounted (i := n - 1) (by omega) (by omega) (hall n hn (n - 1) (by omega))
    | _ => exact hok trivial
  | _ => exact hok trivial

/-- The PTY reader thread is ahead of the reaper thread. -/
def lastByteRun : List SessionEvent :=
  handshake 0 0 ++ [.conn 0 .fetchAdd, .conn 0 .storeConnected, .shellWrite [1], .shellExit,
    .ptyRead 1, .ptyAppend, .ptyNotify, .mark .reaper,
    .conn 0 .checkCurrent, .conn 0 .enable, .conn 0 .drain, .conn 0 (.send true),
    .conn 0 .checkCurrent, .conn 0 .enable, .conn 0 .drain, .conn 0 .checkEnded,
    .conn 0 (.send true)]

theorem ended_after_output_lastByteRun :
    ∃ t, tracedSession.run (freshSession, History.new) lastByteRun = some t ∧
      (t.1.conns 0).sent = [.output 0 [1], .ended] ∧ t.1.EndedLast := by
  have hok : tracedSession.RunMeets DrainedAtEnd (freshSession, History.new) lastByteRun := by
    refine ⟨trivial, trivial, trivial, trivial, trivial, trivial, trivial, trivial, trivial,
      trivial, trivial, trivial, trivial, trivial, trivial, trivial, trivial, trivial, trivial, ?_,
      trivial, trivial, trivial, trivial, ?_, trivial⟩
    · exact fun hw => nomatch hw
    · intro _ n hn
      cases hn
      exact Or.inl (Nat.le_refl 1)
  have hrun : tracedSession.run (freshSession, History.new) lastByteRun = some _ := rfl
  exact ⟨_, hrun, rfl, (ended_after_output _
    ((System.ReachableWith.init initial_traced).run_meets hok hrun) (by decide)).1⟩

/-- The shell writes a byte and exits, and the reaper thread is ahead of the PTY reader thread. -/
def earlyEndedRun : List SessionEvent :=
  handshake 0 0 ++ [.conn 0 .fetchAdd, .conn 0 .storeConnected, .shellWrite [1], .shellExit,
    .mark .reaper, .conn 0 .checkCurrent, .conn 0 .enable, .conn 0 .drain, .conn 0 .checkEnded,
    .conn 0 (.send true)]

/-- A connection gets `Ended` and not the last byte. -/
theorem not_ended_after_output : ¬ ∀ s, sessionSystem.Reachable s →
    s.shell.written.length < 2 ^ 64 → s.EndedLast := by
  intro h
  have hrun : ∃ s, sessionSystem.run freshSession earlyEndedRun = some s ∧
      s.shell.written = [1] ∧ s.shell.exitedAt = some 1 ∧ (s.conns 0).sent = [.ended] ∧
      (s.conns 0).offset = 0 ∧ s.shared.ring.start = 0 :=
    ⟨_, rfl, rfl, rfl, rfl, rfl, rfl⟩
  obtain ⟨s, hs, hwritten, hexit, hsent, hoffset, hstart⟩ := hrun
  have hlen : s.shell.written.length < 2 ^ 64 := by rw [hwritten]; decide
  obtain ⟨frames, hframes, hall⟩ :=
    h s (System.reachable_of_run earlyEndedRun initial_freshSession hs) hlen 0
      (by rw [hsent]; exact List.mem_singleton_self _)
  rw [hsent] at hframes
  have hnil : frames ++ [.ended] = [] ++ [.ended] := hframes.symm
  obtain rfl := List.append_cancel_right hnil
  rw [hoffset] at hall
  rcases hall 1 hexit 0 Nat.one_pos with hlt | hlt | ⟨o, data, b, hmem, -⟩
  · exact absurd hlt (by decide)
  · rw [hstart] at hlt
    exact absurd hlt (by decide)
  · cases hmem

end Thther
