import Thther.Server.HandleTcp

/-!
# The steps of `server_writer` (`server/daemon.rs`)

`WriterStepped` lists the branches of the loop with their guards; `connStep_written` says that a
step of a connection is one of them, the start of the loop, or leaves the writer as it was.
-/

namespace Thther

/-- The frame `server_writer` is about to send. -/
def WriterHalf.inHand : WriterHalf → List Frame
  | .sending f => [f]
  | _ => []

/-- A step of the loop of `server_writer`. -/
inductive WriterStepped (shared : SessionShared) (k : Conn) : ConnEvent → Conn → Prop
  | current : k.writer = .checking → shared.isCurrent k.epoch = true →
      WriterStepped shared k .checkCurrent { k with writer := .enabling }
  | superseded : k.writer = .checking → shared.isCurrent k.epoch = false →
      WriterStepped shared k .checkCurrent { k with writer := .done }
  | enable : k.writer = .enabling →
      WriterStepped shared k .enable { k with writer := .draining, enabled := true, woken := false }
  | output (f : Frame) (cursor : UInt64) : k.writer = .draining →
      serverWriterRead shared.ring k.cursor = some (f, cursor) →
      WriterStepped shared k .drain { k with writer := .sending f, cursor }
  | drained : k.writer = .draining → serverWriterRead shared.ring k.cursor = none →
      WriterStepped shared k .drain { k with writer := .checkingEnded }
  | ending : k.writer = .checkingEnded → shared.ended = true →
      WriterStepped shared k .checkEnded { k with writer := .sending .ended }
  | live : k.writer = .checkingEnded → shared.ended = false →
      WriterStepped shared k .checkEnded { k with writer := .waiting }
  | wake : k.writer = .waiting → k.woken = true →
      WriterStepped shared k .wake { k with writer := .checking }
  | takePong : k.writer = .waiting → 0 < k.pongs →
      WriterStepped shared k .takePong { k with writer := .sending .pong, pongs := k.pongs - 1 }
  | tick : k.writer = .waiting →
      WriterStepped shared k .tick { k with writer := .sending .ping }
  | sent (f : Frame) : k.writer = .sending f → f ≠ .ended →
      WriterStepped shared k (.send true) { k with writer := .checking, sent := k.sent ++ [f] }
  | sentEnded : k.writer = .sending .ended →
      WriterStepped shared k (.send true) { k with writer := .done, sent := k.sent ++ [.ended] }
  | failed (f : Frame) : k.writer = .sending f →
      WriterStepped shared k (.send false) { k with writer := .done }

/-- The loop keeps what `handle_tcp` gave it. -/
theorem WriterStepped.phase_eq {shared : SessionShared} {k k' : Conn} {e : ConnEvent}
    (h : WriterStepped shared k e k') :
    k'.phase = k.phase ∧ k'.offset = k.offset ∧ k'.epoch = k.epoch := by
  cases h <;> exact ⟨rfl, rfl, rfl⟩

theorem Conn.writer_of_running {k : Conn} (hrun : k.running = true) : k.writer ≠ .done := by
  simp only [Conn.running, decide_eq_true_eq] at hrun
  exact hrun.2.2

/-- `hello.offset` has been compared with the total, and the loop has not started. -/
def ConnPhase.checked : ConnPhase → Bool
  | .sized | .replied | .authenticated | .greeted | .activating => true
  | .accepted | .received | .found | .admitted | .keyed => false
  | .serving | .leaving | .clearing | .left | .refused _ | .closed => false

/-- The loop has started. -/
def ConnPhase.writing : ConnPhase → Bool
  | .serving | .leaving | .clearing | .left => true
  | .accepted | .received | .found | .admitted | .keyed => false
  | .sized | .replied | .authenticated | .greeted | .activating | .refused _ | .closed => false

theorem Conn.writing_of_running {k : Conn} (hrun : k.running = true) :
    k.phase.writing = true := by
  rw [Conn.phase_of_running hrun]
  rfl

/-- A step that is not one of the writer's. -/
structure WriterIdle (shared : SessionShared) (k k' : Conn) : Prop where
  writer : k'.writer = k.writer
  cursor : k'.cursor = k.cursor
  sent : k'.sent = k.sent
  enabled : k'.enabled = k.enabled
  woken : k'.woken = k.woken
  writing : k'.phase.writing = k.phase.writing
  offset : k.phase.writing = true ∨ k.phase.checked = true → k'.offset = k.offset
  epoch : k.phase.writing = true → k'.epoch = k.epoch
  checked : k'.phase.checked = true → k.phase.checked = true ∨ ¬ shared.currentTotal < k'.offset

/-- What a step of a connection does to its `server_writer`. -/
inductive ConnWritten (shared : SessionShared) (k : Conn) : ConnEvent → Conn → Prop
  | writer (e : ConnEvent) (k' : Conn) : k.running = true → WriterStepped shared k e k' →
      ConnWritten shared k e k'
  | start : k.phase = .activating →
      ConnWritten shared k .storeConnected { k with
        phase := .serving, reader := .reading, pongs := 0, writer := .checking,
        cursor := k.offset, enabled := false, woken := false, sent := [] }
  | idle (e : ConnEvent) (k' : Conn) : e ≠ .drain → WriterIdle shared k k' →
      ConnWritten shared k e k'

/-- A step of the reader half. -/
theorem WriterIdle.of_reader {shared : SessionShared} {k : Conn} {reader : ReaderHalf}
    {pongs : ℕ} : WriterIdle shared k { k with reader, pongs } where
  writer := rfl
  cursor := rfl
  sent := rfl
  enabled := rfl
  woken := rfl
  writing := rfl
  offset _ := rfl
  epoch _ := rfl
  checked h := Or.inl h

/-- A step of `handle_tcp` outside the loop. -/
theorem WriterIdle.of_phase {shared : SessionShared} {k : Conn} {phase : ConnPhase}
    {offset total : UInt64} {psk : Option Psk} {epoch : ℕ}
    (hw : phase.writing = k.phase.writing)
    (ho : k.phase.writing = true ∨ k.phase.checked = true → offset = k.offset)
    (he : k.phase.writing = true → epoch = k.epoch)
    (hc : phase.checked = true → k.phase.checked = true ∨ ¬ shared.currentTotal < offset) :
    WriterIdle shared k { k with phase, offset, psk, total, epoch } where
  writer := rfl
  cursor := rfl
  sent := rfl
  enabled := rfl
  woken := rfl
  writing := hw
  offset := ho
  epoch := he
  checked := hc

theorem connStep_written {shared shared' : SessionShared} {k k' : Conn} {e : ConnEvent}
    (h : connStep shared k e = some (shared', k')) : ConnWritten shared k e k' := by
  cases e with
  | recv f =>
    simp only [connStep] at h
    split_ifs at h
    cases h
    exact .idle _ _ (by simp) .of_reader
  | handle =>
    obtain ⟨-, ⟨m, -, -, rfl⟩ | ⟨-, -, pongs, rfl⟩⟩ := connStep_handle h
    · exact .idle _ _ (by simp) .of_reader
    · exact .idle _ _ (by simp) .of_reader
  | checkCurrent =>
    simp only [connStep] at h
    split_ifs at h with hp hcur
    · cases h; exact .writer _ _ hp.1 (.current hp.2 hcur)
    · cases h; exact .writer _ _ hp.1 (.superseded hp.2 (Bool.eq_false_iff.2 hcur))
  | enable =>
    simp only [connStep] at h
    split_ifs at h with hp
    cases h; exact .writer _ _ hp.1 (.enable hp.2)
  | drain =>
    simp only [connStep] at h
    split_ifs at h with hp
    split at h
    · rename_i f cursor hr
      cases h; exact .writer _ _ hp.1 (.output f cursor hp.2 hr)
    · rename_i hr
      cases h; exact .writer _ _ hp.1 (.drained hp.2 hr)
  | checkEnded =>
    simp only [connStep] at h
    split_ifs at h with hp hended
    · cases h; exact .writer _ _ hp.1 (.ending hp.2 hended)
    · cases h; exact .writer _ _ hp.1 (.live hp.2 (Bool.eq_false_iff.2 hended))
  | wake =>
    simp only [connStep] at h
    split_ifs at h with hp
    cases h; exact .writer _ _ hp.1 (.wake hp.2.1 hp.2.2)
  | takePong =>
    simp only [connStep] at h
    split_ifs at h with hp
    cases h; exact .writer _ _ hp.1 (.takePong hp.2.1 hp.2.2)
  | tick =>
    simp only [connStep] at h
    split_ifs at h with hp
    cases h; exact .writer _ _ hp.1 (.tick hp.2)
  | send ok =>
    cases hw : k.writer with
    | sending f =>
      cases ok with
      | true =>
        simp only [connStep, hw, if_true] at h
        split_ifs at h with hrun hf
        · cases h; subst hf; exact .writer _ _ hrun (.sentEnded hw)
        · cases h; exact .writer _ _ hrun (.sent f hw hf)
      | false =>
        simp only [connStep, hw, Bool.false_eq_true, if_false] at h
        split_ifs at h with hrun
        cases h; exact .writer _ _ hrun (.failed f hw)
    | _ =>
      simp only [connStep, hw] at h
      split_ifs at h
  | storeConnected =>
    simp only [connStep] at h
    split_ifs at h with hp
    cases h; exact .start hp
  | readTotal =>
    simp only [connStep] at h
    split_ifs at h with hp hlt
    · cases h
      refine .idle _ _ (by simp) (.of_phase ?_ ?_ ?_ ?_) <;>
        simp [hp, ConnPhase.writing, ConnPhase.checked]
    · cases h
      exact .idle _ _ (by simp) (.of_phase (by simp [hp, ConnPhase.writing]) (fun _ => rfl)
        (fun _ => rfl) fun _ => Or.inr hlt)
  | _ =>
    -- the handshake, or the end of the connection
    simp only [connStep] at h
    split_ifs at h with hp
    all_goals
      cases h
      refine .idle _ _ (by simp) (.of_phase ?_ ?_ ?_ ?_) <;>
        simp [hp, ConnPhase.writing, ConnPhase.checked]

end Thther
