import Thther.Proto.Crypto
import Thther.Server.RingBuf

/-!
# The state one session shares between its threads (`server/session.rs`)

`SessionShared` is the memory; its methods read or change it.  Where a method makes more than one
atomic access, only the accesses are here: `become_active` is `fetchAddEpoch` and then
`storeConnected true`, `leave` is `isCurrent` and then, if it is, `storeConnected false`, and
`mark_ended` is `MarkEnded`.

The epoch counter is a natural number; `isCurrent_eq_uint64` says that up to `2 ^ 64 - 1` takeovers
it compares as the `AtomicU64` does.  The wakeups of
`data_ready` belong to their waiters and are modelled with `server_writer`.
-/

namespace Thther

/-- What the PTY's writer thread is asked to do. -/
inductive PtyMsg
  | input (bytes : List UInt8)
  | resize (cols rows : UInt16)
  deriving DecidableEq

/-- The shared memory of a session. -/
structure SessionShared where
  id : String
  started : UInt64
  cmd : String
  ring : RingBuf
  ended : Bool
  psk : Psk
  /-- Incremented each time a TCP connection becomes active. -/
  activeEpoch : ℕ
  /-- The busy flag. -/
  connected : Bool
  /-- What has been sent to the PTY's writer thread, oldest first. -/
  toPty : List PtyMsg
  /-- How often the killer has been invoked. -/
  kills : ℕ
  deriving DecidableEq

namespace SessionShared

/-- The session that `spawn_session` builds. -/
def new (id : String) (started : UInt64) (cmd : String) (ringBytes : ℕ) (psk : Psk) :
    SessionShared where
  id
  started
  cmd
  ring := RingBuf.new ringBytes
  ended := false
  psk
  activeEpoch := 0
  connected := false
  toPty := []
  kills := 0

/-- `current_total`. -/
def currentTotal (s : SessionShared) : UInt64 := s.ring.total

/-- `is_busy`. -/
def isBusy (s : SessionShared) : Bool := s.connected && !s.ended

/-- `status_str`. -/
def statusStr (s : SessionShared) : String := if s.isBusy then "attached" else "detached"

/-- `rotate_psk`, with the key it draws. -/
def rotatePsk (s : SessionShared) (new : Psk) : SessionShared := { s with psk := new }

/-- `active_epoch.fetch_add(1) + 1`. -/
def fetchAddEpoch (s : SessionShared) : ℕ × SessionShared :=
  (s.activeEpoch + 1, { s with activeEpoch := s.activeEpoch + 1 })

/-- `connected.store(value)`. -/
def storeConnected (s : SessionShared) (value : Bool) : SessionShared :=
  { s with connected := value }

/-- `is_current`. -/
def isCurrent (s : SessionShared) (epoch : ℕ) : Bool := s.activeEpoch = epoch

/-- `send_input`. -/
def sendInput (s : SessionShared) (bytes : List UInt8) : SessionShared :=
  { s with toPty := s.toPty ++ [.input bytes] }

/-- `resize`. -/
def resize (s : SessionShared) (cols rows : UInt16) : SessionShared :=
  { s with toPty := s.toPty ++ [.resize cols rows] }

/-- `kill`. -/
def kill (s : SessionShared) : SessionShared := { s with kills := s.kills + 1 }

/-- `ring.lock().append(bytes)`. -/
def appendOutput (s : SessionShared) (bytes : List UInt8) : SessionShared :=
  { s with ring := s.ring.append bytes }

theorem isBusy_eq_true {s : SessionShared} :
    s.isBusy = true ↔ s.connected = true ∧ s.ended = false := by
  simp [isBusy]

theorem isCurrent_eq_true {s : SessionShared} {epoch : ℕ} :
    s.isCurrent epoch = true ↔ s.activeEpoch = epoch := by
  simp [isCurrent]

end SessionShared

/-- The threads of a session that call `mark_ended`. -/
inductive EndThread
  | reader
  | reaper
  deriving DecidableEq

/-- How far a thread is in `mark_ended`, access by access. -/
inductive MarkEnded
  /-- The thread has yet to swap `ended`; its own loop or wait may still be running. -/
  | swap
  /-- The swap was won, and `data_ready.notify_waiters()` comes next. -/
  | notify
  /-- `registry.remove` comes next. -/
  | remove
  | returned
  deriving DecidableEq

namespace MarkEnded

/-- One access of `mark_ended`, and the value it leaves in `ended`. -/
def step (ended : Bool) : MarkEnded → Option (MarkEnded × Bool)
  | swap => if ended then some (returned, true) else some (notify, true)
  | notify => some (remove, ended)
  | remove => some (returned, ended)
  | returned => none

/-- The swap was won and the removal is still to come. -/
def clearing : MarkEnded → Bool
  | notify => true
  | remove => true
  | _ => false

end MarkEnded

/-- What holds of `ended` and the two calls of `mark_ended` in every interleaving: `ended` is set
exactly when a thread is past the swap, and one thread at most has won it. -/
structure MarkEnded.Ok (ended : Bool) (mark : EndThread → MarkEnded) : Prop where
  past : ∀ t, mark t ≠ .swap → ended = true
  swapped : ended = true → ∃ t, mark t ≠ .swap
  unique : ∀ t u, (mark t).clearing = true → (mark u).clearing = true → t = u

/-- `registry.remove` has run. -/
def MarkEnded.Cleared (ended : Bool) (mark : EndThread → MarkEnded) : Prop :=
  ended = true ∧ ∀ t, (mark t).clearing = false

theorem MarkEnded.ok_new : MarkEnded.Ok false fun _ => .swap where
  past t h := absurd rfl h
  swapped h := by cases h
  unique t u h := by cases h

theorem MarkEnded.clearing_of_update {mark : EndThread → MarkEnded} {t u : EndThread}
    {m : MarkEnded} (hm : m.clearing = true → (mark t).clearing = true)
    (hu : (Function.update mark t m u).clearing = true) : (mark u).clearing = true := by
  by_cases h : u = t
  · subst h
    rw [Function.update_self] at hu
    exact hm hu
  · rwa [Function.update_of_ne h] at hu

/-- One step of `mark_ended` by either thread. -/
theorem MarkEnded.Ok.step {ended ended' : Bool} {mark : EndThread → MarkEnded} {t : EndThread}
    {m : MarkEnded} (h : MarkEnded.Ok ended mark)
    (hs : MarkEnded.step ended (mark t) = some (m, ended')) :
    MarkEnded.Ok ended' (Function.update mark t m) := by
  have hown := h.past t
  have hpast : ∀ m : MarkEnded, m ≠ .swap → ∃ u, Function.update mark t m u ≠ .swap :=
    fun m hne => ⟨t, by rwa [Function.update_self]⟩
  cases hm : mark t with
  | swap =>
    rw [hm, MarkEnded.step] at hs
    split_ifs at hs with he
    · cases hs
      refine ⟨fun _ _ => rfl, fun _ => hpast returned nofun, fun u v hu hv => ?_⟩
      exact h.unique u v (clearing_of_update (m := returned) nofun hu)
        (clearing_of_update (m := returned) nofun hv)
    · -- the swap was won, and nobody was past it
      cases hs
      have heq : ∀ u, (Function.update mark t notify u).clearing = true → u = t := by
        intro u hu
        by_contra hut
        rw [Function.update_of_ne hut] at hu
        refine he (h.past u fun hsw => ?_)
        rw [hsw] at hu
        cases hu
      refine ⟨fun _ _ => rfl, fun _ => hpast notify nofun, fun u v hu hv => ?_⟩
      rw [heq u hu, heq v hv]
  | notify =>
    rw [hm] at hs hown
    cases hs
    have hcl : (mark t).clearing = true := by rw [hm]; rfl
    refine ⟨fun _ _ => hown nofun, fun _ => hpast remove nofun, fun u v hu hv => ?_⟩
    exact h.unique u v (clearing_of_update (fun _ => hcl) hu) (clearing_of_update (fun _ => hcl) hv)
  | remove =>
    rw [hm] at hs hown
    cases hs
    refine ⟨fun _ _ => hown nofun, fun _ => hpast returned nofun, fun u v hu hv => ?_⟩
    exact h.unique u v (clearing_of_update (m := returned) nofun hu)
      (clearing_of_update (m := returned) nofun hv)
  | returned =>
    rw [hm] at hs
    cases hs

theorem MarkEnded.Cleared.update_returned {ended : Bool} {mark : EndThread → MarkEnded}
    (h : Cleared ended mark) (t : EndThread) :
    Cleared ended (Function.update mark t .returned) := by
  refine ⟨h.1, fun u => ?_⟩
  by_cases hut : u = t
  · rw [hut, Function.update_self]; rfl
  · rw [Function.update_of_ne hut]; exact h.2 u

/-- Only the access to the registry clears the session. -/
theorem MarkEnded.cleared_step {ended ended' : Bool} {mark : EndThread → MarkEnded}
    {t : EndThread} {m : MarkEnded} (hne : mark t ≠ .remove)
    (hs : MarkEnded.step ended (mark t) = some (m, ended')) :
    Cleared ended' (Function.update mark t m) ↔ Cleared ended mark := by
  cases hm : mark t with
  | swap =>
    rw [hm, MarkEnded.step] at hs
    split_ifs at hs with he
    · cases hs
      constructor
      · rintro ⟨-, hall⟩
        refine ⟨he, fun u => ?_⟩
        by_cases hut : u = t
        · rw [hut, hm]; rfl
        · have := hall u
          rwa [Function.update_of_ne hut] at this
      · intro hcl
        subst he
        exact hcl.update_returned t
    · -- the swap was won: neither before nor after
      cases hs
      constructor
      · rintro ⟨-, hall⟩
        have := hall t
        rw [Function.update_self] at this
        cases this
      · rintro ⟨hend, -⟩
        exact absurd hend he
  | notify =>
    rw [hm] at hs
    cases hs
    constructor
    · rintro ⟨-, hall⟩
      have := hall t
      rw [Function.update_self] at this
      cases this
    · rintro ⟨-, hall⟩
      have := hall t
      rw [hm] at this
      cases this
  | remove => exact absurd hm hne
  | returned =>
    rw [hm] at hs
    cases hs

/-- The thread that removes the session is the only one clearing it. -/
theorem MarkEnded.Ok.cleared_of_remove {ended : Bool} {mark : EndThread → MarkEnded}
    {t : EndThread} (h : MarkEnded.Ok ended mark) (ht : mark t = .remove) :
    ¬ Cleared ended mark ∧ Cleared ended (Function.update mark t .returned) := by
  refine ⟨?_, h.past t (by rw [ht]; exact nofun), fun u => ?_⟩
  · rintro ⟨-, hall⟩
    have := hall t
    rw [ht] at this
    cases this
  · by_cases hut : u = t
    · rw [hut, Function.update_self]; rfl
    · rw [Function.update_of_ne hut, Bool.eq_false_iff]
      intro hu
      exact hut (h.unique u t hu (by rw [ht]; rfl))

/-- Both calls have returned only after the removal. -/
theorem MarkEnded.Ok.cleared_of_returned {ended : Bool} {mark : EndThread → MarkEnded}
    (h : MarkEnded.Ok ended mark) (hr : ∀ t, mark t = .returned) : Cleared ended mark := by
  refine ⟨h.past .reader (by rw [hr]; exact nofun), fun t => ?_⟩
  rw [hr]
  rfl

end Thther
