import Mathlib.Logic.Basic
import Mathlib.Data.List.Basic

/-!
# Transition systems with an executable step

A `System S E` has a set of initial states and a partial step function: `step s e` is
`some s'` when the event `e` is enabled in `s`.  A run is a list of events.

* `ReachableWith ok`: the states reached by runs all of whose steps meet the condition `ok`
  on the state before the step and on the event;
* `Reachable`: the states reached by any run;
* `invariant_with`, `invariant`: the induction rules over runs;
* `ReachableWith.simulate`: the simulation rule, with stuttering;
* `traced`: a system with a history variable, which loses no runs;
* `run`, `run_invariant`, `reachable_of_run`: replay of a list of events;
* `invariant_to`: the invariant rule where the last state of the run is known.
-/

/-- A transition system: initial states and a partial, executable step. -/
structure System (S E : Type*) where
  init : S → Prop
  step : S → E → Option S

namespace System

variable {S E : Type*} {sys : System S E} {ok ok' : S → E → Prop}

/-- The states reached by runs whose steps all meet `ok`. -/
inductive ReachableWith (sys : System S E) (ok : S → E → Prop) : S → Prop
  | init {s : S} : sys.init s → ReachableWith sys ok s
  | step {s s' : S} {e : E} :
      ReachableWith sys ok s → ok s e → sys.step s e = some s' → ReachableWith sys ok s'

/-- The states reached by any run. -/
abbrev Reachable (sys : System S E) : S → Prop := sys.ReachableWith fun _ _ => True

theorem ReachableWith.mono (h : ∀ s e, ok s e → ok' s e) {s : S}
    (hs : sys.ReachableWith ok s) : sys.ReachableWith ok' s := by
  induction hs with
  | init hi => exact .init hi
  | step _ hok hstep ih => exact .step ih (h _ _ hok) hstep

theorem ReachableWith.reachable {s : S} (hs : sys.ReachableWith ok s) : sys.Reachable s :=
  hs.mono fun _ _ _ => trivial

/-- **The invariant rule.**  A property of the initial states that every step meeting `ok`
preserves holds in every state reached by such steps. -/
theorem invariant_with {I : S → Prop} (hinit : ∀ s, sys.init s → I s)
    (hstep : ∀ s e s', I s → ok s e → sys.step s e = some s' → I s') {s : S}
    (hs : sys.ReachableWith ok s) : I s := by
  induction hs with
  | init hi => exact hinit _ hi
  | step _ hok hst ih => exact hstep _ _ _ ih hok hst

/-- The invariant rule over all runs. -/
theorem invariant {I : S → Prop} (hinit : ∀ s, sys.init s → I s)
    (hstep : ∀ s e s', I s → sys.step s e = some s' → I s') {s : S}
    (hs : sys.Reachable s) : I s :=
  invariant_with hinit (fun s e s' hi _ hst => hstep s e s' hi hst) hs

/-- The step labelled `a`, or none. -/
def StepOrStay (sys : System S E) (s : S) (a : Option E) (s' : S) : Prop :=
  match a with
  | none => s' = s
  | some a => sys.step s a = some s'

/-- **The simulation rule.**  Where `f` takes every step meeting `ok` to no step or to a step
meeting `ok'`, it takes the states such runs reach to states such runs reach. -/
theorem ReachableWith.simulate {S' E' : Type*} {sys' : System S' E'} {ok' : S' → E' → Prop}
    (f : S → S') (label : S → E → Option E') (hinit : ∀ s, sys.init s → sys'.init (f s))
    (hstep : ∀ s e s', sys.ReachableWith ok s → sys.step s e = some s' →
      sys'.StepOrStay (f s) (label s e) (f s'))
    (hok : ∀ s e s' a, sys.ReachableWith ok s → ok s e → sys.step s e = some s' →
      label s e = some a → ok' (f s) a) {s : S} (hs : sys.ReachableWith ok s) :
    sys'.ReachableWith ok' (f s) := by
  induction hs with
  | init hi => exact .init (hinit _ hi)
  | @step s s' e hs he hst ih =>
    have hsim := hstep s e s' hs hst
    cases hl : label s e with
    | none =>
      rw [hl] at hsim
      rw [show f s' = f s from hsim]
      exact ih
    | some a =>
      rw [hl] at hsim
      exact ih.step (hok s e s' a hs he hst hl) hsim

/-- Replay a list of events. -/
def run (sys : System S E) (s : S) (es : List E) : Option S := es.foldlM sys.step s

@[simp] theorem run_nil (s : S) : sys.run s [] = some s := rfl

@[simp] theorem run_cons (s : S) (e : E) (es : List E) :
    sys.run s (e :: es) = (sys.step s e).bind fun s' => sys.run s' es := rfl

@[simp] theorem run_singleton (s : S) (e : E) : sys.run s [e] = sys.step s e := by
  rw [run_cons]
  cases sys.step s e <;> rfl

theorem run_append (s : S) (es es' : List E) :
    sys.run s (es ++ es') = (sys.run s es).bind fun s' => sys.run s' es' := by
  induction es generalizing s with
  | nil => rfl
  | cons e es ih =>
    rw [List.cons_append, run_cons, run_cons]
    cases sys.step s e with
    | none => rfl
    | some s₁ => exact ih s₁

theorem run_trans {s s₁ s₂ : S} {es es' : List E} (h : sys.run s es = some s₁)
    (h' : sys.run s₁ es' = some s₂) : sys.run s (es ++ es') = some s₂ := by
  rw [run_append, h, Option.bind_some, h']

theorem run_pair {s s₁ s₂ : S} {e e' : E} (h : sys.step s e = some s₁)
    (h' : sys.step s₁ e' = some s₂) : sys.run s [e, e'] = some s₂ := by
  rw [run_cons, h, Option.bind_some, run_singleton, h']

/-- What every step preserves, every replay preserves. -/
theorem run_invariant {I : S → Prop} (hstep : ∀ s e s', I s → sys.step s e = some s' → I s')
    {s s' : S} {es : List E} (hs : I s) (h : sys.run s es = some s') : I s' := by
  induction es generalizing s with
  | nil =>
    cases h
    exact hs
  | cons e es ih =>
    rw [run_cons, Option.bind_eq_some_iff] at h
    obtain ⟨s₁, h₁, h₂⟩ := h
    exact ih (hstep s e s₁ hs h₁) h₂

theorem ReachableWith.run {s s' : S} {es : List E} (hs : sys.ReachableWith ok s)
    (hok : ∀ s e, e ∈ es → ok s e) (h : sys.run s es = some s') : sys.ReachableWith ok s' := by
  induction es generalizing s with
  | nil => cases h; exact hs
  | cons e es ih =>
    rw [run_cons, Option.bind_eq_some_iff] at h
    obtain ⟨s₁, h₁, h₂⟩ := h
    exact ih (hs.step (hok s e List.mem_cons_self) h₁)
      (fun s e he => hok s e (List.mem_cons_of_mem _ he)) h₂

/-- The steps of a replay all meet `ok`. -/
def RunMeets (sys : System S E) (ok : S → E → Prop) : S → List E → Prop
  | _, [] => True
  | s, e :: es => ok s e ∧
    match sys.step s e with
    | none => True
    | some s' => sys.RunMeets ok s' es

@[simp] theorem runMeets_singleton {s : S} {e : E} : sys.RunMeets ok s [e] ↔ ok s e := by
  unfold RunMeets
  cases sys.step s e with
  | none => exact ⟨fun h => h.1, fun h => ⟨h, trivial⟩⟩
  | some s' => exact ⟨fun h => h.1, fun h => ⟨h, trivial⟩⟩

theorem ReachableWith.run_meets {s s' : S} {es : List E} (hs : sys.ReachableWith ok s)
    (hok : sys.RunMeets ok s es) (h : sys.run s es = some s') : sys.ReachableWith ok s' := by
  induction es generalizing s with
  | nil => cases h; exact hs
  | cons e es ih =>
    rw [run_cons, Option.bind_eq_some_iff] at h
    obtain ⟨s₁, h₁, h₂⟩ := h
    obtain ⟨hse, hrest⟩ := hok
    rw [h₁] at hrest
    exact ih (hs.step hse h₁) hrest h₂

theorem runMeets_append {s s' : S} {es es' : List E} (h : sys.run s es = some s') :
    sys.RunMeets ok s (es ++ es') ↔ sys.RunMeets ok s es ∧ sys.RunMeets ok s' es' := by
  induction es generalizing s with
  | nil =>
    cases h
    exact ⟨fun h => ⟨trivial, h⟩, fun h => h.2⟩
  | cons e es ih =>
    rw [run_cons, Option.bind_eq_some_iff] at h
    obtain ⟨s₁, h₁, h₂⟩ := h
    rw [List.cons_append, RunMeets, RunMeets, h₁]
    dsimp only
    rw [ih h₂, and_assoc]

theorem RunMeets.mono {s : S} {es : List E} (hs : sys.ReachableWith ok s)
    (h : ∀ s e, sys.ReachableWith ok s → ok s e → ok' s e) (hes : sys.RunMeets ok s es) :
    sys.RunMeets ok' s es := by
  induction es generalizing s with
  | nil => trivial
  | cons e es ih =>
    obtain ⟨he, hrest⟩ := hes
    refine ⟨h s e hs he, ?_⟩
    cases hst : sys.step s e with
    | none => trivial
    | some s' =>
      rw [hst] at hrest
      exact ih (hs.step he hst) hrest

theorem runMeets_of_forall {s : S} {es : List E} (h : ∀ e ∈ es, ∀ s, ok s e) :
    sys.RunMeets ok s es := by
  induction es generalizing s with
  | nil => trivial
  | cons e es ih =>
    refine ⟨h e List.mem_cons_self s, ?_⟩
    cases sys.step s e with
    | none => trivial
    | some s' => exact ih fun e he => h e (List.mem_cons_of_mem _ he)

/-- The last state of a replay from an initial state is reachable. -/
theorem reachable_of_run {s s' : S} (es : List E) (hi : sys.init s)
    (h : sys.run s es = some s') : sys.Reachable s' :=
  (ReachableWith.init hi).run (fun _ _ _ => trivial) h

/-- The invariant rule for a run whose last state `s` is known: every step taken on the way has
led there. -/
theorem invariant_to {I : S → Prop} {s : S} (hs : sys.Reachable s)
    (hinit : ∀ s, sys.init s → I s)
    (hstep : ∀ s₁ e s₂ es, I s₁ → sys.step s₁ e = some s₂ → sys.run s₂ es = some s → I s₂) :
    I s := by
  have hall : ∀ {s₁}, sys.Reachable s₁ → ∀ es, sys.run s₁ es = some s → I s₁ := by
    intro s₁ hs₁
    induction hs₁ with
    | init hi => exact fun _ _ => hinit _ hi
    | @step s₁ s₂ e _ _ hst ih =>
      intro es hes
      exact hstep s₁ e s₂ es (ih (e :: es) (by rw [run_cons, hst]; exact hes)) hst hes
  exact hall hs [] rfl

/-! ### History variables -/

/-- The system with a history that each step extends and none reads. -/
def traced {H : Type*} (sys : System S E) (h₀ : H) (record : S → H → E → H) : System (S × H) E where
  init t := sys.init t.1 ∧ t.2 = h₀
  step t e := (sys.step t.1 e).map fun s' => (s', record t.1 t.2 e)

section Traced

variable {H : Type*} {h₀ : H} {record : S → H → E → H}

theorem traced_step_eq_some {t t' : S × H} {e : E} :
    (sys.traced h₀ record).step t e = some t' ↔
      sys.step t.1 e = some t'.1 ∧ t'.2 = record t.1 t.2 e := by
  simp only [traced, Option.map_eq_some_iff]
  constructor
  · rintro ⟨s', hs, rfl⟩
    exact ⟨hs, rfl⟩
  · rintro ⟨hs, hh⟩
    exact ⟨t'.1, hs, by rw [← hh]⟩

/-- Every run has a history. -/
theorem ReachableWith.traced (h₀ : H) (record : S → H → E → H) {s : S}
    (hs : sys.ReachableWith ok s) :
    ∃ h, (sys.traced h₀ record).ReachableWith (fun t e => ok t.1 e) (s, h) := by
  induction hs with
  | init hi => exact ⟨h₀, .init ⟨hi, rfl⟩⟩
  | @step s s' e _ hok hst ih =>
    obtain ⟨h, ih⟩ := ih
    exact ⟨record s h e, ih.step hok (traced_step_eq_some.2 ⟨hst, rfl⟩)⟩

end Traced

end System
