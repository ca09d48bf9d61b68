import Thther.Lib.System
import Thther.Server.ExecuteControl

/-!
# Sessions entering and leaving the registry

Any number of `Create` requests, each with the session it spawns and the two threads of that
session that call `mark_ended`, as one transition system: `new_session_id` draw by draw, the thread
starts and `registry.insert` of `spawn_session`, and `mark_ended` access by access.

`RegistrationStep` says what a step can do; the invariants below rest on it alone.

* `registry_clear`: where `insert` never comes after the session's own removal, an ended
  session leaves the registry; where it does, the entry stays.
* `registry_held`: where no draw takes the id of a session about to be inserted, an inserted
  session keeps its entry until its own removal; where one does, an entry can be displaced.
-/

namespace Thther

/-- How far `execute_control` is with a `Create`. -/
inductive CreatePhase
  /-- In the loop of `new_session_id`. -/
  | drawing
  /-- `spawn_session` runs: the PTY and the shell come next. -/
  | drawn
  | failed
  | readerStarted
  /-- `registry.insert` comes next. -/
  | reaperStarted
  /-- `spawn_session` has returned. -/
  | returned
  deriving DecidableEq

/-- A `Create` and its session. -/
structure Creation where
  phase : CreatePhase
  id : String
  ended : Bool
  mark : EndThread → MarkEnded

/-- The registry and every `Create`, also those to come; a session is its `Create`'s number. -/
structure Registrations where
  registry : Registry
  creations : SessionRef → Creation

inductive RegistrationEvent
  /-- `new_session_id` draws and looks the id up. -/
  | draw (c : SessionRef) (n : UInt32)
  /-- Opening the PTY or starting the shell fails. -/
  | spawnFails (c : SessionRef)
  | startReader (c : SessionRef)
  | startReaper (c : SessionRef)
  | insert (c : SessionRef)
  /-- One access of `mark_ended`. -/
  | mark (c : SessionRef) (t : EndThread)

namespace Creation

/-- The request before its first draw. -/
def new : Creation where
  phase := .drawing
  id := ""
  ended := false
  mark _ := .swap

/-- The thread is running. -/
def started (x : Creation) : EndThread → Bool
  | .reader => x.phase = .readerStarted ∨ x.phase = .reaperStarted ∨ x.phase = .returned
  | .reaper => x.phase = .reaperStarted ∨ x.phase = .returned

/-- The id is drawn and not in the registry yet. -/
def pending (x : Creation) : Bool :=
  x.phase = .drawn ∨ x.phase = .readerStarted ∨ x.phase = .reaperStarted

/-- `registry.insert` has run. -/
def inserted (x : Creation) : Bool := x.phase = .returned

/-- The session's own `registry.remove` has run. -/
def removed (x : Creation) : Prop := MarkEnded.Cleared x.ended x.mark

end Creation

def Registrations.set (s : Registrations) (c : SessionRef) (x : Creation) : Registrations :=
  { s with creations := Function.update s.creations c x }

/-- One event. -/
def registrationStep (s : Registrations) : RegistrationEvent → Option Registrations
  | .draw c n =>
    let x := s.creations c
    if x.phase = .drawing then
      if s.registry.contains (hex8 n) then some s
      else some (s.set c { x with phase := .drawn, id := hex8 n })
    else none
  | .spawnFails c =>
    let x := s.creations c
    if x.phase = .drawn then some (s.set c { x with phase := .failed }) else none
  | .startReader c =>
    let x := s.creations c
    if x.phase = .drawn then some (s.set c { x with phase := .readerStarted }) else none
  | .startReaper c =>
    let x := s.creations c
    if x.phase = .readerStarted then some (s.set c { x with phase := .reaperStarted }) else none
  | .insert c =>
    let x := s.creations c
    if x.phase = .reaperStarted then
      some { (s.set c { x with phase := .returned }) with registry := s.registry.insert x.id c }
    else none
  | .mark c t =>
    let x := s.creations c
    if x.started t then
      match (x.mark t).step x.ended with
      | none => none
      | some (m, ended) =>
        let s' := s.set c { x with ended, mark := Function.update x.mark t m }
        if x.mark t = .remove then some { s' with registry := s.registry.remove x.id } else some s'
    else none

/-- The daemon's registrations, from an empty registry. -/
def registrationSystem : System Registrations RegistrationEvent where
  init s := s = ⟨Registry.new, fun _ => Creation.new⟩
  step := registrationStep

/-! ### What a step can do -/

/-- A change of a session that neither inserts nor removes it. -/
structure Creation.Quiet (x y : Creation) : Prop where
  id : y.id = x.id
  pending : y.pending = true → x.pending = true
  inserted : y.inserted = x.inserted
  removed : y.removed ↔ x.removed
  mark : MarkEnded.Ok x.ended x.mark → MarkEnded.Ok y.ended y.mark
  idle : ∀ t, y.started t = false → x.started t = false ∧ y.mark t = x.mark t

theorem Creation.quiet_phase {x : Creation} {p : CreatePhase}
    (hp : { x with phase := p }.pending = true → x.pending = true)
    (hi : { x with phase := p }.inserted = x.inserted)
    (hs : ∀ t, { x with phase := p }.started t = false → x.started t = false) :
    x.Quiet { x with phase := p } :=
  ⟨rfl, hp, hi, Iff.rfl, fun hm => hm, fun t ht => ⟨hs t ht, rfl⟩⟩

/-- Either the draw is taken, or one session draws its id, moves on quietly, is inserted, or is
removed by its own `mark_ended`. -/
inductive RegistrationStep (s : Registrations) : RegistrationEvent → Registrations → Prop
  | taken (c : SessionRef) (n : UInt32) : RegistrationStep s (.draw c n) s
  | drawn (c : SessionRef) (n : UInt32) : (s.creations c).phase = .drawing →
      s.registry.contains (hex8 n) = false →
      RegistrationStep s (.draw c n) (s.set c { s.creations c with phase := .drawn, id := hex8 n })
  | quiet (e : RegistrationEvent) (c : SessionRef) (y : Creation) : (s.creations c).Quiet y →
      RegistrationStep s e (s.set c y)
  | inserted (c : SessionRef) : (s.creations c).phase = .reaperStarted →
      RegistrationStep s (.insert c)
        ⟨s.registry.insert (s.creations c).id c,
          (s.set c { s.creations c with phase := .returned }).creations⟩
  | removed (c : SessionRef) (t : EndThread) : (s.creations c).started t = true →
      (s.creations c).mark t = .remove →
      RegistrationStep s (.mark c t)
        ⟨s.registry.remove (s.creations c).id,
          (s.set c { s.creations c with
            mark := Function.update (s.creations c).mark t .returned }).creations⟩

theorem registrationStep_cases {s s' : Registrations} {e : RegistrationEvent}
    (h : registrationStep s e = some s') : RegistrationStep s e s' := by
  cases e with
  | draw c n =>
    simp only [registrationStep] at h
    split_ifs at h with hp hc
    · cases h; exact .taken c n
    · cases h; exact .drawn c n hp (Bool.eq_false_iff.2 hc)
  | spawnFails c =>
    simp only [registrationStep] at h
    split_ifs at h with hp
    cases h
    refine .quiet _ c { s.creations c with phase := .failed } (Creation.quiet_phase ?_ ?_ ?_)
    · simp [Creation.pending, hp]
    · simp [Creation.inserted, hp]
    · rintro (_ | _) <;> simp [Creation.started, hp]
  | startReader c =>
    simp only [registrationStep] at h
    split_ifs at h with hp
    cases h
    refine .quiet _ c { s.creations c with phase := .readerStarted } (Creation.quiet_phase ?_ ?_ ?_)
    · simp [Creation.pending, hp]
    · simp [Creation.inserted, hp]
    · rintro (_ | _) <;> simp [Creation.started, hp]
  | startReaper c =>
    simp only [registrationStep] at h
    split_ifs at h with hp
    cases h
    refine .quiet _ c { s.creations c with phase := .reaperStarted } (Creation.quiet_phase ?_ ?_ ?_)
    · simp [Creation.pending, hp]
    · simp [Creation.inserted, hp]
    · rintro (_ | _) <;> simp [Creation.started, hp]
  | insert c =>
    simp only [registrationStep] at h
    split_ifs at h with hp
    cases h
    exact .inserted c hp
  | mark c t =>
    simp only [registrationStep] at h
    by_cases hst : (s.creations c).started t = true
    · rw [if_pos hst] at h
      cases hm : (s.creations c).mark t |>.step (s.creations c).ended with
      | none => rw [hm] at h; cases h
      | some r =>
        obtain ⟨m, ended⟩ := r
        rw [hm] at h
        dsimp only at h
        by_cases hr : (s.creations c).mark t = .remove
        · rw [hr] at hm
          cases hm
          rw [if_pos hr] at h
          cases h
          exact .removed c t hst hr
        · rw [if_neg hr] at h
          cases h
          exact .quiet _ c
            { s.creations c with ended, mark := Function.update (s.creations c).mark t m }
            ⟨rfl, fun hp => hp, rfl, MarkEnded.cleared_step hr hm, fun hok => hok.step hm,
              fun u hu => ⟨hu, Function.update_of_ne (fun hut => by
                rw [hut] at hu; exact absurd (hst.symm.trans hu) nofun) _ _⟩⟩
    · rw [if_neg hst] at h
      cases h

@[simp] theorem Registrations.set_registry (s : Registrations) (c : SessionRef) (x : Creation) :
    (s.set c x).registry = s.registry := rfl

@[simp] theorem Registrations.set_creations_self (s : Registrations) (c : SessionRef)
    (x : Creation) : (s.set c x).creations c = x := by
  simp [Registrations.set]

theorem Registrations.set_creations_ne (s : Registrations) {c d : SessionRef} (x : Creation)
    (h : d ≠ c) : (s.set c x).creations d = s.creations d := by
  simp [Registrations.set, h]

/-- What holds of every session after one of them has changed. -/
theorem Registrations.forall_set {P : SessionRef → Creation → Prop} {s : Registrations}
    {c : SessionRef} {x : Creation} (h : ∀ d, d ≠ c → P d (s.creations d)) (hx : P c x) :
    ∀ d, P d ((s.set c x).creations d) := by
  intro d
  by_cases hd : d = c
  · subst hd
    rwa [s.set_creations_self]
  · rw [s.set_creations_ne x hd]
    exact h d hd

/-! ### What no step undoes -/

/-- `y` may come after `x`: what no step undoes of a `Create`. -/
structure Creation.Later (x y : Creation) : Prop where
  inserted : x.inserted = true → y.inserted = true
  id : x.phase ≠ .drawing → y.phase ≠ .drawing ∧ y.id = x.id
  drawn : y.phase ≠ .drawing → x.phase ≠ .drawing ∨ ∃ n, y.id = hex8 n

theorem Creation.Later.refl (x : Creation) : x.Later x := 
  ⟨fun h => h, fun h => ⟨h, rfl⟩, .inl⟩

/-- A `Create` past its draw goes on under its id. -/
theorem Creation.later_phase {x y : Creation} (hx : x.phase ≠ .drawing) (hy : y.phase ≠ .drawing)
    (hid : y.id = x.id) (hi : x.inserted = true → y.inserted = true) : x.Later y :=
  ⟨hi, fun _ => ⟨hy, hid⟩, fun _ => .inl hx⟩

theorem registrationStep_later {s s' : Registrations} {e : RegistrationEvent}
    (h : registrationStep s e = some s') (c : SessionRef) :
    (s.creations c).Later (s'.creations c) ∧
      ((∀ c, e ≠ .startReader c) →
        (s'.creations c).started .reader = (s.creations c).started .reader) := by
  have hset : ∀ d y, (s.creations d).Later y →
      ((∀ c, e ≠ .startReader c) → y.started .reader = (s.creations d).started .reader) →
      (s.creations c).Later ((s.set d y).creations c) ∧ ((∀ c, e ≠ .startReader c) →
        ((s.set d y).creations c).started .reader = (s.creations c).started .reader) :=
    fun d y hy hst => Registrations.forall_set
      (P := fun c y => (s.creations c).Later y ∧ ((∀ c, e ≠ .startReader c) →
        y.started .reader = (s.creations c).started .reader))
      (fun _ _ => ⟨.refl _, fun _ => rfl⟩) ⟨hy, hst⟩ c
  cases e with
  | draw d n =>
    simp only [registrationStep] at h
    split_ifs at h with hp hc
    · cases h
      exact ⟨.refl _, fun _ => rfl⟩
    · cases h
      refine hset d _ ⟨?_, fun hx => absurd hp hx, fun _ => .inr ⟨n, rfl⟩⟩ fun _ => ?_
      · simp [Creation.inserted, hp]
      · simp [Creation.started, hp]
  | spawnFails d =>
    simp only [registrationStep] at h
    split_ifs at h with hp
    cases h
    refine hset d _ (Creation.later_phase (by simp [hp]) nofun rfl ?_) fun _ => ?_
    · simp [Creation.inserted, hp]
    · simp [Creation.started, hp]
  | startReader d =>
    simp only [registrationStep] at h
    split_ifs at h with hp
    cases h
    refine hset d _ (Creation.later_phase (by simp [hp]) nofun rfl ?_) fun he => absurd rfl (he d)
    simp [Creation.inserted, hp]
  | startReaper d =>
    simp only [registrationStep] at h
    split_ifs at h with hp
    cases h
    refine hset d _ (Creation.later_phase (by simp [hp]) nofun rfl ?_) fun _ => ?_
    · simp [Creation.inserted, hp]
    · simp [Creation.started, hp]
  | insert d =>
    simp only [registrationStep] at h
    split_ifs at h with hp
    cases h
    refine hset d _ (Creation.later_phase (by simp [hp]) nofun rfl ?_) fun _ => ?_
    · simp [Creation.inserted]
    · simp [Creation.started, hp]
  | mark d t =>
    simp only [registrationStep] at h
    have hy : ∀ ended mark, (s.creations d).Later { s.creations d with ended, mark } :=
      fun ended mark => ⟨fun hi => hi, fun hx => ⟨hx, rfl⟩, .inl⟩
    split_ifs at h with hst hr
    · split at h
      · cases h
      · cases h
        exact hset d _ (hy _ _) fun _ => rfl
    · split at h
      · cases h
      · cases h
        exact hset d _ (hy _ _) fun _ => rfl

/-- Only its own draw takes a `Create` from its first phase. -/
theorem registrationStep_new {r r' : Registrations} {e : RegistrationEvent} {c : SessionRef}
    (h : registrationStep r e = some r') (hnew : r.creations c = Creation.new)
    (he : ∀ n, e ≠ .draw c n) : r'.creations c = Creation.new := by
  have hset : ∀ d y, r.creations d ≠ Creation.new → (r.set d y).creations c = Creation.new := by
    intro d y hd
    have hcd : c ≠ d := by
      rintro rfl
      exact hd hnew
    rw [r.set_creations_ne _ hcd, hnew]
  have hphase : ∀ {d p}, (r.creations d).phase = p → p ≠ .drawing →
      r.creations d ≠ Creation.new := by
    rintro d p rfl hp hd
    rw [hd] at hp
    exact hp rfl
  cases e with
  | draw d n =>
    simp only [registrationStep] at h
    split_ifs at h
    · cases h
      exact hnew
    · cases h
      have hd : c ≠ d := by
        rintro rfl
        exact he n rfl
      rw [r.set_creations_ne _ hd, hnew]
  | mark d t =>
    simp only [registrationStep] at h
    have hstarted : (r.creations d).started t = true → r.creations d ≠ Creation.new := by
      intro hst hd
      rw [hd] at hst
      cases t <;> cases hst
    split_ifs at h with hst hr
    · split at h
      · cases h
      · cases h
        exact hset d _ (hstarted hst)
    · split at h
      · cases h
      · cases h
        exact hset d _ (hstarted hst)
  | _ =>
    simp only [registrationStep] at h
    split_ifs at h with hp
    cases h
    exact hset _ _ (hphase hp nofun)

/-! ### What holds in every interleaving -/

/-- Where the registry holds session `c`, it does so under its id and after its insertion. -/
structure Creation.Filed (g : Registry) (c : SessionRef) (x : Creation) : Prop where
  mark : MarkEnded.Ok x.ended x.mark
  idle : ∀ t, x.started t = false → x.mark t = .swap
  keyed : ∀ i, g.get i = some c → x.id = i ∧ x.inserted = true

/-- Every entry is an inserted session under its own id. -/
def Registrations.Inv (s : Registrations) : Prop := ∀ c, (s.creations c).Filed s.registry c

theorem Registrations.Inv.step {s s' : Registrations} {e : RegistrationEvent} (h : s.Inv)
    (hs : registrationStep s e = some s') : s'.Inv := by
  cases registrationStep_cases hs with
  | taken c n => exact h
  | drawn c n hp hn =>
    refine Registrations.forall_set (P := Creation.Filed s.registry) (fun d _ => h d)
      ⟨(h c).mark, fun t _ => (h c).idle t (by cases t <;> simp [Creation.started, hp]),
        fun i hi => ?_⟩
    have := ((h c).keyed i hi).2
    simp [Creation.inserted, hp] at this
  | quiet e c y hq =>
    refine Registrations.forall_set (P := Creation.Filed s.registry) (fun d _ => h d)
      ⟨hq.mark (h c).mark, fun t ht => ?_, fun i hi => ?_⟩
    · obtain ⟨hx, hm⟩ := hq.idle t ht
      rw [hm]
      exact (h c).idle t hx
    · rw [hq.id, hq.inserted]
      exact (h c).keyed i hi
  | inserted c hp =>
    refine Registrations.forall_set
      (P := Creation.Filed (s.registry.insert (s.creations c).id c))
      (fun d hdc => ⟨(h d).mark, (h d).idle, fun i hi => ?_⟩)
      ⟨(h c).mark, fun t ht => by cases t <;> simp [Creation.started] at ht, fun i hi => ?_⟩
    · by_cases hid : i = (s.creations c).id
      · rw [hid, Registry.get_insert, Option.some.injEq] at hi
        exact absurd hi.symm hdc
      · rw [Registry.get_insert_ne _ _ hid] at hi
        exact (h d).keyed i hi
    · by_cases hid : i = (s.creations c).id
      · exact ⟨hid.symm, rfl⟩
      · rw [Registry.get_insert_ne _ _ hid] at hi
        exact absurd ((h c).keyed i hi).1.symm hid
  | removed c t hst hr =>
    refine Registrations.forall_set (P := Creation.Filed (s.registry.remove (s.creations c).id))
      (fun d _ => ⟨(h d).mark, (h d).idle, fun i hi => ?_⟩)
      ⟨(h c).mark.step (by rw [hr]; rfl), fun u hu => ?_, fun i hi => ?_⟩
    · exact (h d).keyed i (Registry.get_remove_eq_some.1 hi).2
    · have hut : u ≠ t := by
        rintro rfl
        exact absurd (hst.symm.trans hu) nofun
      dsimp only
      rw [Function.update_of_ne hut]
      exact (h c).idle u hu
    · exact (h c).keyed i (Registry.get_remove_eq_some.1 hi).2

theorem registration_inv {s : Registrations} (hs : registrationSystem.Reachable s) : s.Inv := by
  refine System.invariant (fun s hi => ?_) (fun s e s' h hst => h.step hst) hs
  rw [show s = _ from hi]
  exact fun c => ⟨MarkEnded.ok_new, fun _ _ => rfl, nofun⟩

/-- Before its threads start, a session is neither ended nor removed. -/
theorem Creation.Filed.not_removed {g : Registry} {c : SessionRef} {x : Creation}
    (h : x.Filed g c) (hs : ∀ t, x.started t = false) : ¬ x.removed := by
  rintro ⟨hend, -⟩
  obtain ⟨t, ht⟩ := h.mark.swapped hend
  exact ht (h.idle t (hs t))

/-! ### Ended sessions leave the registry -/

/-- `insert` does not come after the session's own removal. -/
def InsertsFirst (s : Registrations) : RegistrationEvent → Prop
  | .insert c => ¬ (s.creations c).removed
  | _ => True

/-- Every session whose `spawn_session` and both calls of `mark_ended` have returned is out of the
registry. -/
def Registrations.Clear (s : Registrations) : Prop :=
  ∀ c, (s.creations c).phase = .returned → (∀ t, (s.creations c).mark t = .returned) →
    ∀ i, s.registry.get i ≠ some c

/-- The registry holds session `c` only before its removal. -/
def Creation.Listed (g : Registry) (c : SessionRef) (x : Creation) : Prop :=
  ∀ i, g.get i = some c → ¬ x.removed

theorem listed_step {s s' : Registrations} {e : RegistrationEvent} (hinv : s.Inv)
    (h : ∀ c, (s.creations c).Listed s.registry c) (hok : InsertsFirst s e)
    (hs : registrationStep s e = some s') : ∀ c, (s'.creations c).Listed s'.registry c := by
  cases registrationStep_cases hs with
  | taken c n => exact h
  | drawn c n hp hn =>
    exact Registrations.forall_set (P := Creation.Listed s.registry) (fun d _ => h d) (h c)
  | quiet e c y hq =>
    refine Registrations.forall_set (P := Creation.Listed s.registry) (fun d _ => h d) ?_
    intro i hi
    rw [hq.removed]
    exact h c i hi
  | inserted c hp =>
    refine Registrations.forall_set
      (P := Creation.Listed (s.registry.insert (s.creations c).id c)) (fun d hdc i hi => ?_)
      (fun i hi => hok)
    by_cases hid : i = (s.creations c).id
    · rw [hid, Registry.get_insert, Option.some.injEq] at hi
      exact absurd hi.symm hdc
    · rw [Registry.get_insert_ne _ _ hid] at hi
      exact h d i hi
  | removed c t hst hr =>
    refine Registrations.forall_set
      (P := Creation.Listed (s.registry.remove (s.creations c).id)) (fun d _ i hi => ?_)
      (fun i hi => ?_)
    · exact h d i (Registry.get_remove_eq_some.1 hi).2
    · -- the entry removed was the session's own
      obtain ⟨hne, hi⟩ := Registry.get_remove_eq_some.1 hi
      exact absurd ((hinv c).keyed i hi).1.symm hne

theorem clear_of_insertsFirst {s : Registrations}
    (hs : registrationSystem.ReachableWith InsertsFirst s) : s.Clear := by
  have h : s.Inv ∧ ∀ c, (s.creations c).Listed s.registry c := by
    refine System.invariant_with
      (I := fun s => s.Inv ∧ ∀ c, (s.creations c).Listed s.registry c)
      (fun s hi => ?_) (fun s e s' h hok hst => ?_) hs
    · rw [show s = _ from hi]
      exact ⟨fun c => ⟨MarkEnded.ok_new, fun _ _ => rfl, nofun⟩, fun c => nofun⟩
    · exact ⟨h.1.step hst, listed_step h.1 h.2 hok hst⟩
  intro c _ hr i hi
  exact h.2 c i hi ((h.1 c).mark.cleared_of_returned hr)

/-- After the removal a thread only finds `ended` set. -/
theorem run_mark_of_removed {s : Registrations} {c : SessionRef} (t : EndThread)
    (hp : (s.creations c).phase = .returned) (hr : (s.creations c).removed) :
    ∃ es, registrationSystem.run s es = some (s.set c { s.creations c with
      mark := Function.update (s.creations c).mark t .returned }) := by
  obtain ⟨hend, hcl⟩ := hr
  have hst : (s.creations c).started t = true := by
    cases t <;> simp [Creation.started, hp]
  have hclt := hcl t
  cases hm : (s.creations c).mark t with
  | swap =>
    refine ⟨[.mark c t], ?_⟩
    simp [registrationSystem, registrationStep, hst, hm, MarkEnded.step, hend]
  | returned =>
    refine ⟨[], ?_⟩
    rw [← hm, Function.update_eq_self]
    simp [Registrations.set]
  | notify => rw [hm] at hclt; cases hclt
  | remove => rw [hm] at hclt; cases hclt

theorem run_marks_of_removed {s : Registrations} {c : SessionRef}
    (hp : (s.creations c).phase = .returned) (hr : (s.creations c).removed) :
    ∃ es s', registrationSystem.run s es = some s' ∧ s'.registry = s.registry ∧
      (s'.creations c).phase = .returned ∧ ∀ t, (s'.creations c).mark t = .returned := by
  obtain ⟨es, hes⟩ := run_mark_of_removed .reader hp hr
  have hr' := hr.update_returned .reader
  obtain ⟨es', hes'⟩ := run_mark_of_removed (s := s.set c { s.creations c with
      mark := Function.update (s.creations c).mark .reader .returned }) (c := c) .reaper
    (by rw [s.set_creations_self]; exact hp) (by rw [s.set_creations_self]; exact hr')
  refine ⟨es ++ es', _, System.run_trans hes hes', rfl, ?_, fun t => ?_⟩
  · simp [hp]
  · cases t <;> simp

/-- An insertion after the removal leaves an entry that no `mark_ended` removes. -/
theorem not_clear_of_late_insert {s s' : Registrations} {c : SessionRef}
    (hr : (s.creations c).removed) (hs : registrationStep s (.insert c) = some s') :
    ∃ es s'', registrationSystem.run s' es = some s'' ∧ ¬ s''.Clear := by
  have hp : (s.creations c).phase = .reaperStarted := by
    by_contra hp
    simp [registrationStep, hp] at hs
  obtain rfl : _ = s' := Option.some.inj ((if_pos hp).symm.trans hs)
  obtain ⟨es, s'', hrun, hreg, hphase, hmark⟩ := run_marks_of_removed (c := c)
    (s := ⟨s.registry.insert (s.creations c).id c,
      (s.set c { s.creations c with phase := .returned }).creations⟩)
    (by rw [s.set_creations_self]) (by rw [s.set_creations_self]; exact hr)
  refine ⟨es, s'', hrun, fun hclear => ?_⟩
  refine hclear c hphase hmark (s.creations c).id ?_
  rw [hreg, Registry.get_insert]

/-- **An ended session leaves the registry** in every run whose insertions all come before the
session's own removal; where one comes after, its entry is never removed. -/
theorem registry_clear (s : Registrations)
    (hs : registrationSystem.ReachableWith InsertsFirst s) :
    s.Clear ∧
      ∀ e s', ¬ InsertsFirst s e → registrationStep s e = some s' →
        ∃ es s'', registrationSystem.run s' es = some s'' ∧ ¬ s''.Clear := by
  refine ⟨clear_of_insertsFirst hs, fun e s' hok hst => ?_⟩
  cases e with
  | insert c => exact not_clear_of_late_insert (not_not.1 hok) hst
  | _ => exact absurd trivial hok

/-- A shell that exits after `spawn_session` has returned. -/
def earlyInsertRun : List RegistrationEvent :=
  [.draw 0 7, .startReader 0, .startReaper 0, .insert 0, .mark 0 .reaper, .mark 0 .reaper,
    .mark 0 .reaper, .mark 0 .reader]

theorem registry_clear_earlyInsertRun :
    ∃ s, registrationSystem.run ⟨Registry.new, fun _ => Creation.new⟩ earlyInsertRun = some s ∧
      (s.creations 0).phase = .returned ∧ s.Clear := by
  have hok : registrationSystem.RunMeets InsertsFirst ⟨Registry.new, fun _ => Creation.new⟩
      earlyInsertRun := by
    refine ⟨trivial, trivial, trivial, ?_, trivial, trivial, trivial, trivial, trivial⟩
    exact fun h => nomatch h.1
  have hrun : registrationSystem.run ⟨Registry.new, fun _ => Creation.new⟩ earlyInsertRun
      = some _ := rfl
  exact ⟨_, hrun, rfl, (registry_clear _ ((System.ReachableWith.init rfl).run_meets hok hrun)).1⟩

/-- A shell that exits at once: both threads are through with `mark_ended` before `insert`. -/
def lateInsertRun : List RegistrationEvent :=
  [.draw 0 7, .startReader 0, .startReaper 0, .mark 0 .reaper, .mark 0 .reaper, .mark 0 .reaper,
    .mark 0 .reader, .insert 0]

/-- The session stays in the registry. -/
theorem not_registry_clear : ¬ ∀ s, registrationSystem.Reachable s → s.Clear := by
  intro h
  have hrun : ∃ s, registrationSystem.run ⟨Registry.new, fun _ => Creation.new⟩ lateInsertRun
      = some s ∧ (s.creations 0).phase = .returned ∧ (∀ t, (s.creations 0).mark t = .returned) ∧
        s.registry.get (hex8 7) = some 0 := by
    refine ⟨_, rfl, rfl, fun t => ?_, ?_⟩
    · cases t <;> rfl
    · exact Registry.get_insert _ _ _
  obtain ⟨s, hs, hp, hm, hg⟩ := hrun
  exact h s (System.reachable_of_run lateInsertRun rfl hs) 0 hp hm _ hg

/-! ### Live sessions keep their entries -/

/-- No accepted draw is the id of a session about to be inserted. -/
def FreshDraws (s : Registrations) : RegistrationEvent → Prop
  | .draw _ n => s.registry.contains (hex8 n) = false →
      ∀ d, (s.creations d).pending = true → (s.creations d).id ≠ hex8 n
  | _ => True

/-- Every inserted session has its entry until its own removal, and no two such sessions share
an id. -/
structure Registrations.Held (s : Registrations) : Prop where
  entry : ∀ c, (s.creations c).inserted = true → ¬ (s.creations c).removed →
    s.registry.get (s.creations c).id = some c
  distinct : ∀ c d, (s.creations c).inserted = true → ¬ (s.creations c).removed →
    (s.creations d).inserted = true → ¬ (s.creations d).removed →
      (s.creations c).id = (s.creations d).id → c = d

/-- Session `c` owns its id: it is free until the insertion and the session's own from then on. -/
structure Creation.Owns (g : Registry) (c : SessionRef) (x : Creation) : Prop where
  free : x.pending = true → g.get x.id = none
  held : x.inserted = true → ¬ x.removed → g.get x.id = some c

/-- Sessions about to be inserted have distinct ids. -/
def PendingDistinct (creations : SessionRef → Creation) : Prop :=
  ∀ c d, (creations c).pending = true → (creations d).pending = true →
    (creations c).id = (creations d).id → c = d

theorem PendingDistinct.set {s : Registrations} {c : SessionRef} {x : Creation}
    (h : PendingDistinct s.creations)
    (hx : x.pending = true → ∀ d, d ≠ c → (s.creations d).pending = true →
      (s.creations d).id ≠ x.id) : PendingDistinct (s.set c x).creations := by
  intro a b ha hb hab
  by_cases hac : a = c <;> by_cases hbc : b = c
  · rw [hac, hbc]
  · subst hac
    rw [s.set_creations_self] at ha hab
    rw [s.set_creations_ne x hbc] at hb hab
    exact absurd hab.symm (hx ha b hbc hb)
  · subst hbc
    rw [s.set_creations_self] at hb hab
    rw [s.set_creations_ne x hac] at ha hab
    exact absurd hab (hx hb a hac ha)
  · rw [s.set_creations_ne x hac] at ha hab
    rw [s.set_creations_ne x hbc] at hb hab
    exact h a b ha hb hab

/-- A change that keeps the id and makes nothing pending. -/
theorem PendingDistinct.set_quiet {s : Registrations} {c : SessionRef} {x : Creation}
    (h : PendingDistinct s.creations) (hid : x.id = (s.creations c).id)
    (hp : x.pending = true → (s.creations c).pending = true) :
    PendingDistinct (s.set c x).creations := by
  refine h.set fun hx d hdc hd heq => hdc (h d c hd (hp hx) ?_)
  rw [heq, hid]

/-- The invariant behind `Held`. -/
structure Registrations.Owned (s : Registrations) : Prop where
  owns : ∀ c, (s.creations c).Owns s.registry c
  distinct : PendingDistinct s.creations

/-- Another session's entry or claim is under another id. -/
theorem Registrations.Owned.id_ne {s : Registrations} (h : s.Owned) {c d : SessionRef}
    (hdc : d ≠ c) (hc : (s.creations c).pending = true)
    (hd : (s.creations d).pending = true ∨
      (s.creations d).inserted = true ∧ ¬ (s.creations d).removed) :
    (s.creations d).id ≠ (s.creations c).id := by
  intro heq
  rcases hd with hd | ⟨hi, hr⟩
  · exact hdc (h.distinct d c hd hc heq)
  · have hentry := (h.owns d).held hi hr
    rw [heq, (h.owns c).free hc] at hentry
    cases hentry

theorem Registrations.Owned.step {s s' : Registrations} {e : RegistrationEvent} (hinv : s.Inv)
    (h : s.Owned) (hok : FreshDraws s e) (hs : registrationStep s e = some s') : s'.Owned := by
  cases registrationStep_cases hs with
  | taken c n => exact h
  | drawn c n hp hn =>
    refine ⟨Registrations.forall_set (P := Creation.Owns s.registry) (fun d _ => h.owns d)
      ⟨fun _ => Registry.contains_eq_false.1 hn, fun hi => ?_⟩, h.distinct.set fun _ d _ hd => ?_⟩
    · simp [Creation.inserted] at hi
    · exact hok hn d hd
  | quiet e c y hq =>
    refine ⟨Registrations.forall_set (P := Creation.Owns s.registry) (fun d _ => h.owns d)
      ⟨fun hy => ?_, fun hi hr => ?_⟩, h.distinct.set_quiet hq.id hq.pending⟩
    · rw [hq.id]
      exact (h.owns c).free (hq.pending hy)
    · rw [hq.id]
      exact (h.owns c).held (hq.inserted ▸ hi) (fun hx => hr (hq.removed.2 hx))
  | inserted c hp =>
    have hpend : (s.creations c).pending = true := by simp [Creation.pending, hp]
    refine ⟨Registrations.forall_set
      (P := Creation.Owns (s.registry.insert (s.creations c).id c)) (fun d hdc => ⟨?_, ?_⟩)
      ⟨fun hx => ?_, fun _ _ => Registry.get_insert _ _ _⟩, h.distinct.set_quiet rfl fun _ => hpend⟩
    · intro hd
      rw [Registry.get_insert_ne _ _ (h.id_ne hdc hpend (Or.inl hd))]
      exact (h.owns d).free hd
    · intro hi hr
      rw [Registry.get_insert_ne _ _ (h.id_ne hdc hpend (Or.inr ⟨hi, hr⟩))]
      exact (h.owns d).held hi hr
    · simp [Creation.pending] at hx
  | removed c t hst hr =>
    obtain ⟨hbefore, hafter⟩ := (hinv c).mark.cleared_of_remove hr
    refine ⟨Registrations.forall_set
      (P := Creation.Owns (s.registry.remove (s.creations c).id)) (fun d hdc => ⟨?_, ?_⟩)
      ⟨fun _ => Registry.get_remove _ _, fun _ hr' => absurd hafter hr'⟩,
      h.distinct.set_quiet rfl fun hx => hx⟩
    · intro hd
      by_cases hid : (s.creations d).id = (s.creations c).id
      · rw [hid, Registry.get_remove]
      · rw [Registry.get_remove_ne _ hid]
        exact (h.owns d).free hd
    · intro hi hrd
      have hentry := (h.owns d).held hi hrd
      -- the id removed is the session's own, claimed or entered
      have hid : (s.creations d).id ≠ (s.creations c).id := by
        by_cases hpend : (s.creations c).pending = true
        · exact h.id_ne hdc hpend (Or.inr ⟨hi, hrd⟩)
        · have hins : (s.creations c).inserted = true := by
            cases t <;> simp_all [Creation.started, Creation.pending, Creation.inserted]
          intro heq
          rw [heq, (h.owns c).held hins hbefore, Option.some.injEq] at hentry
          exact hdc hentry.symm
      rw [Registry.get_remove_ne _ hid]
      exact hentry

theorem Registrations.Owned.held {s : Registrations} (h : s.Owned) : s.Held where
  entry c := (h.owns c).held
  distinct c d hc hcr hd hdr hid := by
    have hentry := (h.owns c).held hc hcr
    rw [hid, (h.owns d).held hd hdr, Option.some.injEq] at hentry
    exact hentry.symm

theorem held_of_freshDraws {s : Registrations}
    (hs : registrationSystem.ReachableWith FreshDraws s) : s.Held := by
  have h : s.Inv ∧ s.Owned := by
    refine System.invariant_with (I := fun s => s.Inv ∧ s.Owned)
      (fun s hi => ?_) (fun s e s' h hok hst => ⟨h.1.step hst, h.2.step h.1 hok hst⟩) hs
    rw [show s = _ from hi]
    exact ⟨fun c => ⟨MarkEnded.ok_new, fun _ _ => rfl, nofun⟩, fun c => ⟨nofun, nofun⟩, nofun⟩
  exact h.2.held

/-- The remaining steps of a `spawn_session`. -/
theorem run_insert {s : Registrations} {c : SessionRef} (hp : (s.creations c).pending = true) :
    ∃ es, registrationSystem.run s es = some ⟨s.registry.insert (s.creations c).id c,
      (s.set c { s.creations c with phase := .returned }).creations⟩ := by
  cases hph : (s.creations c).phase with
  | drawn =>
    refine ⟨[.startReader c, .startReaper c, .insert c], ?_⟩
    simp [registrationSystem, registrationStep, hph, Registrations.set]
  | readerStarted =>
    refine ⟨[.startReaper c, .insert c], ?_⟩
    simp [registrationSystem, registrationStep, hph, Registrations.set]
  | reaperStarted =>
    refine ⟨[.insert c], ?_⟩
    simp [registrationSystem, registrationStep, hph, Registrations.set]
  | _ => simp [Creation.pending, hph] at hp

/-- Two sessions about to be inserted under one id: the second insertion displaces the first. -/
theorem not_held_of_taken_draw {s s' : Registrations} {c d : SessionRef} {n : UInt32}
    (hinv : s.Inv) (hn : s.registry.contains (hex8 n) = false)
    (hd : (s.creations d).pending = true) (hid : (s.creations d).id = hex8 n)
    (hs : registrationStep s (.draw c n) = some s') :
    ∃ es s'', registrationSystem.run s' es = some s'' ∧ ¬ s''.Held := by
  have hp : (s.creations c).phase = .drawing := by
    by_contra hp
    simp [registrationStep, hp] at hs
  have hdc : d ≠ c := by
    rintro rfl
    simp [Creation.pending, hp] at hd
  have hs' : s' = s.set c { s.creations c with phase := .drawn, id := hex8 n } := by
    simpa [registrationStep, hp, hn] using hs.symm
  subst hs'
  have hrem : ¬ (s.creations c).removed :=
    (hinv c).not_removed fun t => by cases t <;> simp [Creation.started, hp]
  obtain ⟨es, hes⟩ := run_insert
    (s := s.set c { s.creations c with phase := .drawn, id := hex8 n }) (c := c)
    (by simp [Creation.pending])
  -- the insertion of `c` leaves `d` as it was
  set s₁ := s.set c { s.creations c with phase := .drawn, id := hex8 n } with hs₁
  set s₂ : Registrations := ⟨s₁.registry.insert (s₁.creations c).id c,
    (s₁.set c { s₁.creations c with phase := .returned }).creations⟩ with hs₂
  have hd₂ : s₂.creations d = s.creations d := by
    rw [hs₂]
    dsimp only
    rw [s₁.set_creations_ne _ hdc, hs₁, s.set_creations_ne _ hdc]
  have hc₂ : s₂.creations c = { s.creations c with phase := .returned, id := hex8 n } := by
    rw [hs₂]
    dsimp only
    rw [s₁.set_creations_self, hs₁, s.set_creations_self]
  obtain ⟨es', hes'⟩ := run_insert (s := s₂) (c := d) (by rw [hd₂]; exact hd)
  refine ⟨es ++ es', _, System.run_trans hes hes', fun hheld => ?_⟩
  have hc₃ := s₂.set_creations_ne { s₂.creations d with phase := .returned } hdc.symm
  have hentry := hheld.entry c (by dsimp only; rw [hc₃, hc₂]; rfl)
    (by dsimp only; rw [hc₃, hc₂]; exact hrem)
  dsimp only at hentry
  rw [hc₃, hc₂, hd₂, hid, Registry.get_insert, Option.some.injEq] at hentry
  exact hdc hentry

/-- **A live session keeps its entry** in every run whose accepted draws are not the id of a
session about to be inserted; after a draw that is, an entry can be displaced. -/
theorem registry_held (s : Registrations)
    (hs : registrationSystem.ReachableWith FreshDraws s) :
    s.Held ∧
      ∀ e s', ¬ FreshDraws s e → registrationStep s e = some s' →
        ∃ es s'', registrationSystem.run s' es = some s'' ∧ ¬ s''.Held := by
  refine ⟨held_of_freshDraws hs, fun e s' hok hst => ?_⟩
  cases e with
  | draw c n =>
    simp only [FreshDraws, not_forall, not_not] at hok
    obtain ⟨hn, d, hd, hid⟩ := hok
    exact not_held_of_taken_draw (registration_inv hs.reachable) hn hd hid hst
  | _ => exact absurd trivial hok

/-- Two overlapping `Create` requests that draw different ids. -/
def twoDrawsRun : List RegistrationEvent :=
  [.draw 0 7, .draw 1 8, .startReader 0, .startReaper 0, .insert 0, .startReader 1,
    .startReaper 1, .insert 1]

theorem registry_held_twoDrawsRun :
    ∃ s, registrationSystem.run ⟨Registry.new, fun _ => Creation.new⟩ twoDrawsRun = some s ∧
      (s.creations 0).inserted = true ∧ (s.creations 1).inserted = true ∧ s.Held := by
  have hok : registrationSystem.RunMeets FreshDraws ⟨Registry.new, fun _ => Creation.new⟩
      twoDrawsRun := by
    refine ⟨?_, ?_, trivial, trivial, trivial, trivial, trivial, trivial, trivial⟩
    · exact fun _ d hd => nomatch hd
    · rintro _ (_ | d) hd
      · exact show hex8 7 ≠ hex8 8 by decide
      · exact nomatch hd
  have hrun : registrationSystem.run ⟨Registry.new, fun _ => Creation.new⟩ twoDrawsRun
      = some _ := rfl
  exact ⟨_, hrun, rfl, rfl,
    (registry_held _ ((System.ReachableWith.init rfl).run_meets hok hrun)).1⟩

/-- Two overlapping `Create` requests that draw the same id. -/
def sameDrawRun : List RegistrationEvent :=
  [.draw 0 7, .draw 1 7, .startReader 0, .startReaper 0, .insert 0, .startReader 1,
    .startReaper 1, .insert 1]

/-- The first session is displaced. -/
theorem not_registry_held : ¬ ∀ s, registrationSystem.Reachable s → s.Held := by
  intro h
  have hrun : ∃ s, registrationSystem.run ⟨Registry.new, fun _ => Creation.new⟩ sameDrawRun
      = some s ∧ (s.creations 0).inserted = true ∧ (s.creations 0).ended = false ∧
        (s.creations 0).id = hex8 7 ∧ s.registry.get (hex8 7) = some 1 :=
    ⟨_, rfl, rfl, rfl, rfl, Registry.get_insert _ _ _⟩
  obtain ⟨s, hs, hi, he, hid, hg⟩ := hrun
  have hentry := (h s (System.reachable_of_run sameDrawRun rfl hs)).entry 0 hi
    (fun hr => absurd (he.symm.trans hr.1) nofun)
  rw [hid, hg] at hentry
  cases hentry

end Thther
