import Mathlib.Data.List.Infix
import Thther.Server.Takeover

/-!
# The shell's output on its way to the ring

The PTY reader thread takes what the shell has written, one buffer at a time, and appends it to the
ring.  `Session.appended` is what has arrived there; `OutputStepped` says which steps move it, and
`Session.Streamed` that the ring is the window over it (`streamed_of_reachable`).  `EndStepped` says
which steps end the session.
-/

namespace Thther

/-- The bytes the PTY reader has read and not appended yet. -/
def PtyReader.pending : PtyReader → List UInt8
  | .got bytes => bytes
  | _ => []

/-- Everything the PTY reader has appended to the ring. -/
def Session.appended (s : Session) : List UInt8 :=
  s.shell.written.take (s.shell.taken - s.ptyReader.pending.length)

/-- A connection writes neither to the ring nor to `ended`. -/
theorem connStep_shared {shared shared' : SessionShared} {k k' : Conn} {e : ConnEvent}
    (h : connStep shared k e = some (shared', k')) :
    shared'.ring = shared.ring ∧ shared'.ended = shared.ended := by
  cases e with
  | handle =>
    obtain ⟨-, ⟨m, -, rfl, -⟩ | ⟨-, rfl, -⟩⟩ := connStep_handle h
    · exact ⟨rfl, rfl⟩
    · exact ⟨rfl, rfl⟩
  | drain =>
    simp only [connStep] at h
    split_ifs at h
    split at h <;> cases h <;> exact ⟨rfl, rfl⟩
  | send ok =>
    simp only [connStep] at h
    split_ifs at h
    all_goals
      split at h
      · cases h; exact ⟨rfl, rfl⟩
      · cases h
  | _ =>
    simp only [connStep] at h
    split_ifs at h
    all_goals cases h; exact ⟨rfl, rfl⟩

theorem attachStep_shared {shared shared' : SessionShared} {a a' : AttachPhase} {e : AttachEvent}
    (h : attachStep shared a e = some (shared', a')) :
    shared'.ring = shared.ring ∧ shared'.ended = shared.ended := by
  cases e with
  | _ =>
    simp only [attachStep] at h
    split_ifs at h
    all_goals cases h; exact ⟨rfl, rfl⟩

/-- What a step does to the output between the shell and the ring. -/
inductive OutputStepped (s s' : Session) : SessionEvent → Prop
  | shellWrite (bytes : List UInt8) :
      s' = { s with shell := { s.shell with written := s.shell.written ++ bytes } } →
      OutputStepped s s' (.shellWrite bytes)
  | read (n : ℕ) : s.ptyReader = .reading → s.shell.taken + n ≤ s.shell.written.length →
      s' = { s with
        shell := { s.shell with taken := s.shell.taken + n }
        ptyReader := .got ((s.shell.written.drop s.shell.taken).take n) } →
      OutputStepped s s' (.ptyRead n)
  | append (bytes : List UInt8) : s.ptyReader = .got bytes →
      s' = { s with shared := s.shared.appendOutput bytes, ptyReader := .appended } →
      OutputStepped s s' .ptyAppend
  | other (e : SessionEvent) : s'.shell.written = s.shell.written →
      s'.shell.taken = s.shell.taken → s'.ptyReader.pending = s.ptyReader.pending →
      s'.shared.ring = s.shared.ring → OutputStepped s s' e

theorem sessionStep_output {s s' : Session} {e : SessionEvent} (h : sessionStep s e = some s') :
    OutputStepped s s' e := by
  cases e with
  | shellWrite bytes =>
    simp only [sessionStep] at h
    split_ifs at h
    exact .shellWrite bytes (Option.some.inj h).symm
  | ptyRead n =>
    simp only [sessionStep] at h
    split_ifs at h with hp
    exact .read n hp.1 hp.2.2.2 (Option.some.inj h).symm
  | ptyAppend =>
    simp only [sessionStep] at h
    split at h
    · rename_i bytes hreader
      exact .append bytes hreader (Option.some.inj h).symm
    · cases h
  | conn c e =>
    obtain ⟨shared, k, hc, rfl⟩ := sessionStep_conn h
    exact .other _ rfl rfl rfl (connStep_shared hc).1
  | attach i e =>
    simp only [sessionStep] at h
    split at h
    · cases h
    · rename_i shared a ha
      cases h
      exact .other _ rfl rfl rfl (attachStep_shared ha).1
  | mark u =>
    simp only [sessionStep] at h
    split_ifs at h
    all_goals
      split at h <;> cases h
      exact .other _ rfl rfl rfl rfl
  | ptyNotify =>
    simp only [sessionStep] at h
    split_ifs at h with hp
    cases h
    exact .other _ rfl rfl (by rw [hp]; rfl) rfl
  | ptyEof =>
    simp only [sessionStep] at h
    split_ifs at h with hp
    cases h
    exact .other _ rfl rfl (by rw [hp.1]; rfl) rfl
  | shellExit =>
    simp only [sessionStep] at h
    split_ifs at h
    cases h
    exact .other _ rfl rfl rfl rfl
  | hangUp =>
    simp only [sessionStep] at h
    split_ifs at h
    cases h
    exact .other _ rfl rfl rfl rfl

theorem sessionStep_written {s s' : Session} {e : SessionEvent} (h : sessionStep s e = some s') :
    s.shell.written <+: s'.shell.written := by
  cases sessionStep_output h with
  | shellWrite bytes heq => rw [heq]; exact List.prefix_append _ _
  | read n _ _ heq => rw [heq]
  | append bytes _ heq => rw [heq]
  | other _ hwritten => rw [hwritten]

/-! ### The ring is the window over the output -/

/-- The bytes that were taken from the PTY are appended or pending. -/
structure Session.Taken (s : Session) : Prop where
  pending : s.appended ++ s.ptyReader.pending = s.shell.written.take s.shell.taken
  taken_le : s.shell.taken ≤ s.shell.written.length

/-- The ring holds the end of what has been appended to it. -/
structure Session.Streamed (s : Session) : Prop extends s.Taken where
  ring : s.shared.ring.Holds s.appended

section Step

variable {s s' : Session} {e : SessionEvent}

theorem Session.appended_length_le (s : Session) :
    s.appended.length ≤ s.shell.written.length := by
  rw [Session.appended, List.length_take]
  exact Nat.min_le_right _ _

theorem Session.appended_eq (hwritten : s'.shell.written = s.shell.written)
    (htaken : s'.shell.taken = s.shell.taken)
    (hpending : s'.ptyReader.pending = s.ptyReader.pending) : s'.appended = s.appended := by
  rw [Session.appended, Session.appended, hwritten, htaken, hpending]

/-- What a step does to the output that has been appended. -/
theorem Session.Taken.step (h : s.Taken) (hs : sessionStep s e = some s') :
    s'.Taken ∧ ((s'.appended = s.appended ∧ s'.shared.ring = s.shared.ring) ∨
      ∃ bytes, s'.appended = s.appended ++ bytes ∧
        s'.shared.ring = s.shared.ring.append bytes) := by
  have htaken := h.taken_le
  cases sessionStep_output hs with
  | shellWrite bytes heq =>
    have happ : s'.appended = s.appended := by
      rw [heq]
      exact List.take_append_of_le_length (Nat.le_trans (Nat.sub_le _ _) htaken)
    refine ⟨⟨?_, ?_⟩, Or.inl ⟨happ, by rw [heq]⟩⟩
    · rw [happ, heq, List.take_append_of_le_length htaken]
      exact h.pending
    · rw [heq, List.length_append]
      dsimp only
      omega
  | read n hreader hn heq =>
    have hlen : ((s.shell.written.drop s.shell.taken).take n).length = n := by
      rw [List.length_take, List.length_drop]
      omega
    have happ₀ : s.appended = s.shell.written.take s.shell.taken := by
      rw [Session.appended, hreader]
      rfl
    have happ : s'.appended = s.appended := by
      rw [heq, Session.appended, PtyReader.pending, hlen, happ₀, Nat.add_sub_cancel]
    refine ⟨⟨?_, by rw [heq]; exact hn⟩, Or.inl ⟨happ, by rw [heq]⟩⟩
    rw [happ, happ₀, heq, PtyReader.pending, List.take_add]
  | append bytes hreader heq =>
    have hpending := h.pending
    rw [hreader] at hpending
    have happ : s'.appended = s.appended ++ bytes := by
      rw [heq]
      exact hpending.symm
    refine ⟨⟨?_, by rw [heq]; exact htaken⟩, Or.inr ⟨bytes, happ, by rw [heq]; rfl⟩⟩
    rw [happ, heq, ← hpending]
    exact List.append_nil _
  | other e hwritten htk hpend hring =>
    have happ := Session.appended_eq hwritten htk hpend
    refine ⟨⟨?_, by rw [hwritten, htk]; exact htaken⟩, Or.inl ⟨happ, hring⟩⟩
    rw [happ, hpend, hwritten, htk]
    exact h.pending

theorem Session.Taken.appended_le (h : s.Taken) (hs : sessionStep s e = some s') :
    s.appended.length ≤ s'.appended.length := by
  obtain ⟨-, ⟨happ, -⟩ | ⟨bytes, happ, -⟩⟩ := h.step hs
  · rw [happ]
  · rw [happ, List.length_append]
    omega

theorem Session.Streamed.step (h : s.Streamed) (hs : sessionStep s e = some s')
    (hlen : s'.appended.length < 2 ^ 64) : s'.Streamed := by
  obtain ⟨htaken, ⟨happ, hring⟩ | ⟨bytes, happ, hring⟩⟩ := h.toTaken.step hs
  · exact ⟨htaken, by rw [happ, hring]; exact h.ring⟩
  · refine ⟨htaken, ?_⟩
    rw [happ] at hlen ⊢
    rw [hring]
    exact h.ring.append bytes hlen

theorem streamed_new {shared : SessionShared} {cap : ℕ} (h : shared.ring = RingBuf.new cap) :
    (Session.new shared).Streamed where
  pending := rfl
  taken_le := Nat.le_refl _
  ring := by
    show shared.ring.Holds []
    rw [h]
    exact RingBuf.holds_new cap

end Step

/-- In every run the ring is the window over what has been appended, below `2 ^ 64` bytes. -/
theorem streamed_of_reachable {s : Session} (hs : sessionSystem.Reachable s) :
    s.Taken ∧ (s.appended.length < 2 ^ 64 → s.Streamed) := by
  refine System.invariant (I := fun s : Session => s.Taken ∧ (s.appended.length < 2 ^ 64 →
    s.Streamed)) ?_ (fun s e s' h hst => ⟨(h.1.step hst).1, fun hlen => ?_⟩) hs
  · rintro s ⟨id, started, cmd, ringBytes, psk, rfl⟩
    have hnew : (Session.new (.new id started cmd ringBytes psk)).Streamed := streamed_new rfl
    exact ⟨hnew.toTaken, fun _ => hnew⟩
  · exact (h.2 (Nat.lt_of_le_of_lt (h.1.appended_le hst) hlen)).step hst hlen

/-! ### The end of the session -/

theorem MarkEnded.step_ended {ended ended' : Bool} {m m' : MarkEnded}
    (h : MarkEnded.step ended m = some (m', ended')) (he : ended = true) : ended' = true := by
  subst he
  cases m <;> cases h <;> rfl

/-- What a step does to the end of the session. -/
structure EndStepped (s s' : Session) : Prop where
  exitedAt : s.shell.exitedAt ≠ none → s'.shell.exitedAt = s.shell.exitedAt
  ended : s.shared.ended = true → s'.shared.ended = true
  ended_of : s'.shared.ended = true → s.shared.ended = true ∨ ∃ u, s.past u = true
  eof : s.ptyReader = .eof → s'.ptyReader = .eof
  eof_of : s'.ptyReader = .eof → s.ptyReader = .eof ∨ s.shell.hungUp = true
  hungUp_of : s'.shell.hungUp = true → s.shell.hungUp = true ∨ s.shell.exitedAt ≠ none
  mark : ∀ u, s.past u = true ∨ s'.mark u = s.mark u

theorem EndStepped.of_same {s s' : Session} (hshell : s'.shell.exitedAt = s.shell.exitedAt ∧
      s'.shell.hungUp = s.shell.hungUp) (hended : s'.shared.ended = s.shared.ended)
    (hreader : s'.ptyReader = .eof ↔ s.ptyReader = .eof) (hmark : s'.mark = s.mark) :
    EndStepped s s' where
  exitedAt _ := hshell.1
  ended h := by rw [hended, h]
  ended_of h := Or.inl (by rw [← hended, h])
  eof := hreader.2
  eof_of h := Or.inl (hreader.1 h)
  hungUp_of h := Or.inl (by rw [← hshell.2, h])
  mark u := Or.inr (by rw [hmark])

theorem sessionStep_end {s s' : Session} {e : SessionEvent} (h : sessionStep s e = some s') :
    EndStepped s s' := by
  cases e with
  | shellExit =>
    simp only [sessionStep] at h
    split_ifs at h with hexit
    cases h
    exact ⟨fun hne => absurd hexit hne, id, Or.inl, id, Or.inl, Or.inl, fun _ => Or.inr rfl⟩
  | hangUp =>
    simp only [sessionStep] at h
    split_ifs at h with hexit
    cases h
    exact ⟨fun _ => rfl, id, Or.inl, id, Or.inl, fun _ => Or.inr hexit, fun _ => Or.inr rfl⟩
  | ptyEof =>
    simp only [sessionStep] at h
    split_ifs at h with hp
    cases h
    exact ⟨fun _ => rfl, id, Or.inl, fun _ => rfl, fun _ => Or.inr hp.2.1, Or.inl,
      fun _ => Or.inr rfl⟩
  | mark u =>
    simp only [sessionStep] at h
    split_ifs at h with hpast hnotify
    all_goals
      split at h
      · cases h
      · rename_i m ended hm
        cases h
        refine ⟨fun _ => rfl, MarkEnded.step_ended hm, fun _ => Or.inr ⟨u, hpast⟩, id, Or.inl,
          Or.inl, fun v => ?_⟩
        by_cases hvu : v = u
        · exact Or.inl (hvu ▸ hpast)
        · exact Or.inr (Function.update_of_ne hvu _ _)
  | conn c e =>
    obtain ⟨shared, k, hc, rfl⟩ := sessionStep_conn h
    exact .of_same ⟨rfl, rfl⟩ (connStep_shared hc).2 Iff.rfl rfl
  | attach i e =>
    simp only [sessionStep] at h
    split at h
    · cases h
    · rename_i shared a ha
      cases h
      exact .of_same ⟨rfl, rfl⟩ (attachStep_shared ha).2 Iff.rfl rfl
  | ptyAppend =>
    simp only [sessionStep] at h
    split at h
    · rename_i bytes hreader
      cases h
      exact .of_same ⟨rfl, rfl⟩ rfl (by simp [hreader]) rfl
    · cases h
  | ptyRead n =>
    simp only [sessionStep] at h
    split_ifs at h with hp
    cases h
    exact .of_same ⟨rfl, rfl⟩ rfl (by simp [hp.1]) rfl
  | ptyNotify =>
    simp only [sessionStep] at h
    split_ifs at h with hp
    cases h
    exact .of_same ⟨rfl, rfl⟩ rfl (by simp [hp]) rfl
  | shellWrite bytes =>
    simp only [sessionStep] at h
    split_ifs at h
    cases h
    exact .of_same ⟨rfl, rfl⟩ rfl Iff.rfl rfl

/-- A thread past its loop stays there. -/
theorem EndStepped.past {s s' : Session} (h : EndStepped s s') {u : EndThread}
    (hu : s.past u = true) : s'.past u = true := by
  cases u with
  | reader =>
    simp only [Session.past, decide_eq_true_eq] at hu ⊢
    exact h.eof hu
  | reaper =>
    simp only [Session.past, Option.isSome_iff_ne_none] at hu ⊢
    rwa [h.exitedAt hu]

/-- Only a thread past its loop is past the swap. -/
theorem past_of_mark {s : Session} (hs : sessionSystem.Reachable s) {u : EndThread}
    (hu : s.mark u ≠ .swap) : s.past u = true := by
  refine System.invariant (I := fun s : Session => ∀ u, s.mark u ≠ .swap → s.past u = true)
    ?_ (fun s e s' ih hst u hu => ?_) hs u hu
  · rintro s ⟨_, _, _, _, _, rfl⟩ u hu
    exact absurd rfl hu
  · have hend := sessionStep_end hst
    rcases hend.mark u with hpast | hsame
    · exact hend.past hpast
    · rw [hsame] at hu
      exact hend.past (ih u hu)

end Thther
