import Thther.Commands

/-!
# Commands are not held up

What other clients leave behind, at whatever step they stop, is never in the way of the next one.

* `still_of_run`: the steps of the others leave a client where it is;
* `ControlSetup.Offers`, `ControlSetup.Offers.step`: the answers that a request can still come to,
  and the step that brings one closer;
* `command_completes`: a client comes to each of these answers by its own steps.
-/

namespace Thther

variable {T : ControlSetup} {s s' : ControlPlane} {i j : ℕ}

/-! ### The steps of one client -/

/-- The `Create` that an event goes on with. -/
def RegistrationEvent.create : RegistrationEvent → Option SessionRef
  | .draw c _ | .spawnFails c | .startReader c | .startReaper c | .insert c => some c
  | .mark _ _ => none

/-- The client whose request an event goes on with. -/
def ControlEvent.client : ControlEvent → Option ℕ
  | .receive i _ | .handle i | .draw i _ | .spawnFails i _ | .spawn i _ _ _ | .startReaper i
  | .insert i | .created i | .lookup i | .attach i _ | .list i _ | .lookupKill i | .kill i
  | .write i | .finish i _ _ => some i
  | .mark _ _ | .store _ _ => none

/-- A client is where it was. -/
structure ControlPlane.Still (s s' : ControlPlane) (j : ℕ) : Prop where
  request : s'.requests j = s.requests j
  result : s'.results j = s.results j
  phase : (s'.registrations.creations j).phase = (s.registrations.creations j).phase

namespace ControlPlane.Still

theorem trans {s₁ s₂ s₃ : ControlPlane} (h : s₁.Still s₂ j) (h' : s₂.Still s₃ j) :
    s₁.Still s₃ j :=
  ⟨h'.request.trans h.request, h'.result.trans h.result, h'.phase.trans h.phase⟩

/-- Where the request of another client changes, and sessions. -/
theorem of_update {phase : ServePhase} (hij : i ≠ j)
    (hr : s'.requests = Function.update s.requests i phase) (hres : s'.results = s.results)
    (hreg : s'.registrations = s.registrations) : s.Still s' j :=
  ⟨by rw [hr, Function.update_of_ne hij.symm], by rw [hres], by rw [hreg]⟩

end ControlPlane.Still

theorem registrationStep_phase {r r' : Registrations} {e : RegistrationEvent} {c : SessionRef}
    (h : registrationStep r e = some r') (he : e.create ≠ some c) :
    (r'.creations c).phase = (r.creations c).phase := by
  have hne : ∀ {d}, some d ≠ some c → c ≠ d := fun hd hcd => hd (by rw [hcd])
  have hsame : ∀ d y, y.phase = (r.creations d).phase →
      ((r.set d y).creations c).phase = (r.creations c).phase :=
    fun d y hy => Registrations.forall_set (P := fun d y => y.phase = (r.creations d).phase)
      (fun _ _ => rfl) hy c
  cases e with
  | draw d n =>
    simp only [registrationStep] at h
    split_ifs at h
    · cases h
      rfl
    · cases h
      rw [r.set_creations_ne _ (hne he)]
  | mark d t =>
    simp only [registrationStep] at h
    split_ifs at h with hst hr
    · split at h
      · cases h
      · cases h
        exact hsame d _ rfl
    · split at h
      · cases h
      · cases h
        exact hsame d _ rfl
  | insert d =>
    simp only [registrationStep] at h
    split_ifs at h
    cases h
    exact congrArg Creation.phase (r.set_creations_ne _ (hne he))
  | _ =>
    simp only [registrationStep] at h
    split_ifs at h
    cases h
    rw [r.set_creations_ne _ (hne he)]

theorem ControlPlane.register_still {e : RegistrationEvent} (h : s.register i e = some s')
    (he : e.create ≠ some j) : s.Still s' j := by
  obtain ⟨-, r, hr, rfl⟩ := ControlPlane.register_eq_some h
  exact ⟨rfl, rfl, registrationStep_phase hr he⟩

/-- A step leaves every client alone whose request it does not go on with. -/
theorem still_of_step {e : ControlEvent} (h : controlStep T s e = some s')
    (he : e.client ≠ some j) : s.Still s' j := by
  have hne : ∀ {i}, some i ≠ some j → i ≠ j := fun hi hij => hi (by rw [hij])
  cases e with
  | draw i n => exact ControlPlane.register_still h he
  | spawnFails i message =>
    obtain ⟨s₁, h₁, rfl⟩ := Option.map_eq_some_iff.1 h
    exact (ControlPlane.register_still h₁ he).trans (.of_update (hne he) rfl rfl rfl)
  | spawn i now shell psk =>
    obtain ⟨s₁, h₁, rfl⟩ := Option.map_eq_some_iff.1 h
    obtain ⟨hreq, hres, hphase⟩ := ControlPlane.register_still h₁ he
    exact ⟨hreq, hres, hphase⟩
  | startReaper i => exact ControlPlane.register_still h he
  | insert i => exact ControlPlane.register_still h he
  | mark c t =>
    obtain ⟨r, hr, rfl⟩ := Option.map_eq_some_iff.1 h
    exact ⟨rfl, rfl, registrationStep_phase hr (fun h => by cases h)⟩
  | store c value =>
    cases h
    exact ⟨rfl, rfl, rfl⟩
  | finish i x ssh =>
    simp only [controlStep] at h
    split_ifs at h
    obtain ⟨e, -, rfl⟩ := Option.map_eq_some_iff.1 h
    exact ⟨rfl, Function.update_of_ne (hne he).symm _ _, rfl⟩
  | attach i e =>
    simp only [controlStep] at h
    split at h
    · split at h
      · cases h
      all_goals
        cases h
        exact .of_update (hne he) rfl rfl rfl
    · cases h
  | receive i part =>
    simp only [controlStep] at h
    split at h
    · split_ifs at h
      cases h
      exact .of_update (hne he) rfl rfl rfl
    · cases h
  | list i values =>
    simp only [controlStep] at h
    split at h
    · split_ifs at h
      cases h
      exact .of_update (hne he) rfl rfl rfl
    · cases h
  | created i =>
    simp only [controlStep] at h
    split at h
    · split_ifs at h
      cases h
      exact .of_update (hne he) rfl rfl rfl
    · cases h
  | _ =>
    simp only [controlStep] at h
    split at h <;> cases h
    exact .of_update (hne he) rfl rfl rfl

/-- The steps of the others leave a client where it is. -/
theorem still_of_run {es : List ControlEvent} (he : ∀ e ∈ es, e.client ≠ some j)
    (h : (controlSystem T).run s es = some s') : s.Still s' j := by
  induction es generalizing s with
  | nil =>
    cases h
    exact ⟨rfl, rfl, rfl⟩
  | cons e es ih =>
    rw [System.run_cons, Option.bind_eq_some_iff] at h
    obtain ⟨s₁, h₁, h₂⟩ := h
    exact (still_of_step h₁ (he e List.mem_cons_self)).trans
      (ih (fun e' he' => he e' (List.mem_cons_of_mem _ he')) h₂)

/-- The line has not been looked at. -/
def ServePhase.early : ServePhase → Bool
  | .waiting | .received _ => true
  | _ => false

/-- Before its line is looked at, a connection has no session. -/
theorem control_early (hs : (controlSystem T).Reachable s) :
    ∀ i, (s.requests i).early = true → s.registrations.creations i = Creation.new := by
  refine System.invariant
    (I := fun s => ∀ i, (s.requests i).early = true → s.registrations.creations i = Creation.new)
    (fun s hi i _ => by rw [hi.1]) (fun s e s' h hst i hi => ?_) hs
  -- the request that goes on has been early before
  have hupdate : ∀ {j phase}, (phase.early = true → (s.requests j).early = true) →
      (Function.update s.requests j phase i).early = true → (s.requests i).early = true := by
    intro j phase hp hi
    by_cases hij : i = j
    · subst hij
      rw [Function.update_self] at hi
      exact hp hi
    · rwa [Function.update_of_ne hij] at hi
  cases controlStep_cases hst with
  | serve j phase hserve =>
    refine h i (hupdate (fun hp => ?_) hi)
    cases hphase : s.requests j with
    | waiting => rfl
    | received line => rfl
    | _ =>
      rw [hphase] at hserve
      cases hserve <;> cases hp
  | registration e r he hdraw hr =>
    refine registrationStep_new hr (h i hi) fun n hn => ?_
    have hcreating := hdraw i n hn
    dsimp only at hi
    rw [hcreating] at hi
    cases hi
  | spawnFailed j r message hj hr =>
    exact registrationStep_new hr (h i (hupdate (fun hp => by cases hp) hi)) nofun
  | spawned j now shell psk r hj hr => exact registrationStep_new hr (h i hi) nofun
  | stored c value => exact h i hi
  | rotated j id c a psk hj => exact h i (hupdate (fun hp => by cases hp) hi)
  | killed j c hj => exact h i (hupdate (fun hp => by cases hp) hi)
  | finished j x ssh e hj hx he => exact h i hi

/-! ### The answers that are open -/

/-- No error. -/
def ControlResponse.succeeds : ControlResponse → Prop
  | .err _ => False
  | _ => True

namespace ControlSetup

section Offers

variable (T : ControlSetup) (s : ControlPlane) (i : ℕ)

/-- The answers that `execute_control` can still come to, without a step of anyone else. -/
def Performs : ServePhase → ControlResponse → Prop
  | .creating, .bootstrap p id pskHex =>
    p = T.port ∧ ∃ psk : Psk, pskHex = hexEncode psk.toList ∧
      match (s.registrations.creations i).phase with
      | .drawing => ∃ n, id = hex8 n ∧ s.registrations.registry.contains id = false
      | .drawn => id = (s.registrations.creations i).id
      | .failed => False
      | .readerStarted | .reaperStarted | .returned =>
        id = (s.registrations.creations i).id ∧ psk = (s.sessions i).psk
  | .looking id', .bootstrap p id pskHex =>
    p = T.port ∧ id = id' ∧ (∃ psk : Psk, pskHex = hexEncode psk.toList) ∧
      ∃ c, s.registrations.registry.get id = some c ∧
        (s.registrations.creations c).ended = false ∧ (s.sessions c).connected = false
  | .attaching id' c a, .bootstrap p id pskHex =>
    p = T.port ∧ id = id' ∧ (∃ psk : Psk, pskHex = hexEncode psk.toList) ∧
      match a with
      | .found => (s.registrations.creations c).ended = false ∧ (s.sessions c).connected = false
      | .live => (s.sessions c).connected = false
      | .connected => (s.registrations.creations c).ended = true
      | .free => True
      | .requested | .refused _ | .rotated _ => False
  | .listing, .ls l => ∃ values, s.yields values = true ∧ l = ControlPlane.byAge values
  | .killLooking id, .ok => ∃ c, s.registrations.registry.get id = some c
  | .killing _, .ok => True
  | .answered r, r' => r' = r ∧ r.succeeds
  | .written line, r =>
    (∃ json, T.responses.toString r = .ok json ∧ line = json.toList ++ ['\n']) ∧ r.succeeds
  | _, _ => False

/-- The answers that a client that is `Ready` can still get. -/
def Offers (r : ControlResponse) : Prop :=
  match s.requests i with
  | .waiting =>
    ∃ op, (T.client i).cli.cmd.request (T.client i).size = some op ∧
      T.Performs s i (.operation op) r
  | .received line => T.Performs s i (T.handled line) r
  | phase => T.Performs s i phase r

/-- The request has passed the checks of `handle_control`. -/
def Settled : Prop :=
  match s.requests i with
  | .creating =>
    (s.registrations.creations i).phase ≠ .drawing ∧ (s.registrations.creations i).phase ≠ .failed
  | .attaching _ _ a => a = .free
  | .listing | .killing _ => True
  | .answered r => r.succeeds
  | .written line =>
    ∃ r json, T.responses.toString r = .ok json ∧ line = json.toList ++ ['\n'] ∧ r.succeeds
  | _ => False

/-- The steps of `handle_control` to the answer, at most. -/
def stepsLeft : ℕ :=
  match s.requests i with
  | .waiting => 9
  | .received _ => 8
  | .creating =>
    match (s.registrations.creations i).phase with
    | .drawing => 7
    | .drawn | .failed => 6
    | .readerStarted => 5
    | .reaperStarted => 4
    | .returned => 3
  | .looking _ => 6
  | .attaching _ _ .found => 5
  | .attaching _ _ .live => 4
  | .attaching _ _ .connected => 4
  | .attaching _ _ _ => 3
  | .listing => 3
  | .killLooking _ => 4
  | .killing _ => 3
  | .answered _ => 2
  | .written _ => 1
  | .closed => 0

end Offers

section Step

variable {cfg : Config} {target json : String} {op : ControlRequest} {r : ControlResponse}
  {phase : ServePhase}

theorem performs_setRequest {phase' : ServePhase} :
    T.Performs (s.setRequest j phase') i phase r ↔ T.Performs s i phase r :=
  Iff.rfl

theorem Performs.offers (hi : s.requests i = phase) (h : T.Performs s i phase r) :
    T.Offers s i r := by
  unfold Offers
  rw [hi]
  cases phase with
  | waiting => simp [Performs] at h
  | received line => simp [Performs] at h
  | _ => exact h

theorem Performs.stepsLeft_le (hi : s.requests i = phase) (h : T.Performs s i phase r) :
    stepsLeft s i ≤ 7 := by
  unfold stepsLeft
  rw [hi]
  cases phase with
  | waiting => simp [Performs] at h
  | received line => simp [Performs] at h
  | creating =>
    dsimp only
    cases (s.registrations.creations i).phase <;> simp
  | attaching id c a => cases a <;> simp
  | _ => simp

/-- A step of the client, after which the answer is still open and closer. -/
def Closer (T : ControlSetup) (s : ControlPlane) (i : ℕ) (r : ControlResponse) : Prop :=
  ∃ e s', e.client = some i ∧ controlStep T s e = some s' ∧ s'.results i = s.results i ∧
    T.Offers s' i r ∧ stepsLeft s' i < stepsLeft s i

/-- `execute_control` goes on with a `Create`. -/
theorem closer_creating (hf : s.Filed i) (hi : s.requests i = .creating)
    (h : T.Performs s i .creating r) : T.Closer s i r := by
  cases r with
  | bootstrap p id pskHex =>
    obtain ⟨rfl, psk, rfl, h⟩ := h
    cases hphase : (s.registrations.creations i).phase with
    | drawing =>
      rw [hphase] at h
      obtain ⟨n, rfl, hn⟩ := h
      refine ⟨.draw i n, { s with
        registrations := s.registrations.set i
          { s.registrations.creations i with phase := .drawn, id := hex8 n } }, rfl, ?_, rfl,
        Performs.offers hi ⟨rfl, psk, rfl, ?_⟩, ?_⟩
      · simp [controlStep, ControlPlane.register, registrationStep, hi, hphase, hn]
      · simp
      · simp [stepsLeft, hi, hphase]
    | drawn =>
      rw [hphase] at h
      subst h
      refine ⟨.spawn i 0 "/bin/sh" psk, { s with
        registrations := s.registrations.set i
          { s.registrations.creations i with phase := .readerStarted }
        sessions := Function.update s.sessions i (SessionShared.new
          (s.registrations.creations i).id 0 "/bin/sh" T.ringBytes psk)
        minted := s.minted ++ [⟨i, i, psk⟩] }, rfl, ?_, rfl,
        Performs.offers hi ⟨rfl, psk, rfl, ?_⟩, ?_⟩
      · simp [controlStep, ControlPlane.register, registrationStep, hi, hphase]
      · simp [SessionShared.new]
      · simp [stepsLeft, hi, hphase]
    | failed =>
      rw [hphase] at h
      cases h
    | readerStarted =>
      rw [hphase] at h
      refine ⟨.startReaper i, { s with
        registrations := s.registrations.set i
          { s.registrations.creations i with phase := .reaperStarted } }, rfl, ?_, rfl,
        Performs.offers hi ⟨rfl, psk, rfl, ?_⟩, ?_⟩
      · simp [controlStep, ControlPlane.register, registrationStep, hi, hphase]
      · simpa using h
      · simp [stepsLeft, hi, hphase]
    | reaperStarted =>
      rw [hphase] at h
      refine ⟨.insert i, { s with
        registrations := { s.registrations.set i
            { s.registrations.creations i with phase := .returned } with
          registry := s.registrations.registry.insert (s.registrations.creations i).id i } },
        rfl, ?_, rfl,
        Performs.offers hi ⟨rfl, psk, rfl, ?_⟩, ?_⟩
      · simp [controlStep, ControlPlane.register, registrationStep, hi, hphase]
      · simpa using h
      · simp [stepsLeft, hi, hphase]
    | returned =>
      rw [hphase] at h
      obtain ⟨rfl, rfl⟩ := h
      have hid := hf.id (by simp [Creation.started, hphase])
      refine ⟨.created i, s.setRequest i (.answered (.bootstrap T.port (s.sessions i).id
        (hexEncode (s.sessions i).psk.toList))), rfl, ?_, rfl,
        Performs.offers (Function.update_self _ _ _) ⟨?_, trivial⟩, ?_⟩
      · simp [controlStep, hi, hphase]
      · rw [hid]
      · simp [stepsLeft, ControlPlane.setRequest, hi, hphase]
  | _ => simp [Performs] at h

/-- `execute_control` goes on with an `Attach`. -/
theorem closer_attaching {id : String} {c : SessionRef} {a : AttachPhase}
    (hid : (s.sessions c).id = id) (hi : s.requests i = .attaching id c a)
    (h : T.Performs s i (.attaching id c a) r) : T.Closer s i r := by
  cases r with
  | bootstrap p id' pskHex =>
    obtain ⟨rfl, rfl, ⟨psk, rfl⟩, h⟩ := h
    cases a with
    | found =>
      obtain ⟨hended, hconnected⟩ := h
      refine ⟨.attach i .checkEnded, s.setRequest i (.attaching id' c .live), rfl, ?_, rfl,
        Performs.offers (Function.update_self _ _ _) ⟨rfl, rfl, ⟨psk, rfl⟩, hconnected⟩, ?_⟩
      · simp [controlStep, hi, attachStep, ControlPlane.deref, hended]
      · simp [stepsLeft, ControlPlane.setRequest, hi]
    | live =>
      refine ⟨.attach i .checkConnected, s.setRequest i (.attaching id' c .free), rfl, ?_, rfl,
        Performs.offers (Function.update_self _ _ _) ⟨rfl, rfl, ⟨psk, rfl⟩, trivial⟩, ?_⟩
      · have hconnected : (s.sessions c).connected = false := h
        simp [controlStep, hi, attachStep, ControlPlane.deref, hconnected]
      · simp [stepsLeft, ControlPlane.setRequest, hi]
    | connected =>
      refine ⟨.attach i .checkLive, s.setRequest i (.attaching id' c .free), rfl, ?_, rfl,
        Performs.offers (Function.update_self _ _ _) ⟨rfl, rfl, ⟨psk, rfl⟩, trivial⟩, ?_⟩
      · have hended : (s.registrations.creations c).ended = true := h
        simp [controlStep, hi, attachStep, ControlPlane.deref, hended]
      · simp [stepsLeft, ControlPlane.setRequest, hi]
    | free =>
      refine ⟨.attach i (.rotate psk), { s with
        sessions := Function.update s.sessions c ((s.deref c).rotatePsk psk)
        requests := Function.update s.requests i
          (.answered (.bootstrap T.port id' (hexEncode psk.toList)))
        minted := s.minted ++ [⟨c, i, psk⟩] }, rfl, ?_, rfl,
        Performs.offers (Function.update_self _ _ _) ⟨rfl, trivial⟩, ?_⟩
      · simp [controlStep, hi, attachStep, ControlPlane.setRequest, ControlPlane.deref,
          SessionShared.rotatePsk, hid]
      · simp [stepsLeft, hi]
    | requested => cases h
    | refused message => cases h
    | rotated psk => cases h
  | _ => simp [Performs] at h

/-- Until its answer is written, a request has a next step. -/
theorem Offers.closer (hreq : T.requests.Lawful) (h : T.Ready i cfg target op json)
    (hs : s.Ok T) (hr : T.Offers s i r) (hout : T.responses.Writes r)
    (hne : ∀ line, s.requests i ≠ .written line) : T.Closer s i r := by
  unfold Offers at hr
  cases hi : s.requests i with
  | waiting =>
    rw [hi] at hr
    obtain ⟨op', hop', hr⟩ := hr
    obtain rfl : op = op' := Option.some.inj (h.request.symm.trans hop')
    refine ⟨_, _, rfl, h.step_receive hi, rfl, ?_, ?_⟩
    · unfold Offers
      rw [ControlPlane.setRequest_self]
      dsimp only
      rw [h.handled_line hreq, performs_setRequest]
      exact hr
    · simp [stepsLeft, ControlPlane.setRequest, hi]
  | received line =>
    rw [hi] at hr
    have hself := s.setRequest_self i (T.handled line)
    have hperforms : T.Performs (s.setRequest i (T.handled line)) i (T.handled line) r :=
      performs_setRequest.2 hr
    refine ⟨.handle i, s.setRequest i (T.handled line), rfl, by simp [controlStep, hi], rfl,
      hperforms.offers hself, (hperforms.stepsLeft_le hself).trans_lt ?_⟩
    simp [stepsLeft, hi]
  | creating =>
    rw [hi] at hr
    exact closer_creating (hs.filed i) hi hr
  | looking id =>
    rw [hi] at hr
    cases r with
    | bootstrap p id' pskHex =>
      obtain ⟨rfl, rfl, hpsk, c, hget, hended, hconnected⟩ := hr
      refine ⟨.lookup i, s.setRequest i (.attaching id' c .found), rfl, ?_, rfl,
        Performs.offers (s.setRequest_self _ _) ⟨rfl, rfl, hpsk, hended, hconnected⟩, ?_⟩
      · simp [controlStep, hi, hget]
      · simp [stepsLeft, ControlPlane.setRequest, hi]
    | _ => simp [Performs] at hr
  | attaching id c a =>
    rw [hi] at hr
    have hserve := hs.requests i op cfg.port h.plan
    rw [hi] at hserve
    obtain ⟨-, -, hreg⟩ := hserve
    exact closer_attaching (hreg.session_id (hs.filed c)) hi hr
  | listing =>
    rw [hi] at hr
    cases r with
    | ls l =>
      obtain ⟨values, hv, rfl⟩ := hr
      refine ⟨.list i values, s.setRequest i (.answered (.ls (ControlPlane.byAge values))), rfl,
        ?_, rfl, Performs.offers (s.setRequest_self _ _) ⟨rfl, trivial⟩, ?_⟩
      · simp [controlStep, hi, hv]
      · simp [stepsLeft, ControlPlane.setRequest, hi]
    | _ => simp [Performs] at hr
  | killLooking id =>
    rw [hi] at hr
    cases r with
    | ok =>
      obtain ⟨c, hget⟩ := hr
      refine ⟨.lookupKill i, s.setRequest i (.killing c), rfl, ?_, rfl,
        Performs.offers (s.setRequest_self _ _) trivial, ?_⟩
      · simp [controlStep, hi, hget]
      · simp [stepsLeft, ControlPlane.setRequest, hi]
    | _ => simp [Performs] at hr
  | killing c =>
    rw [hi] at hr
    cases r with
    | ok =>
      refine ⟨.kill i, { s.setRequest i (.answered .ok) with
        sessions := Function.update s.sessions c (s.sessions c).kill }, rfl, ?_, rfl,
        Performs.offers (s.setRequest_self _ _) ⟨rfl, trivial⟩, ?_⟩
      · simp [controlStep, hi]
      · simp [stepsLeft, ControlPlane.setRequest, hi]
    | _ => simp [Performs] at hr
  | answered r' =>
    rw [hi] at hr
    obtain ⟨rfl, hok⟩ := hr
    obtain ⟨out, hout⟩ := hout
    refine ⟨.write i, s.setRequest i (.written (out.toList ++ ['\n'])), rfl, ?_, rfl,
      Performs.offers (s.setRequest_self _ _) ⟨⟨out, hout, rfl⟩, hok⟩, ?_⟩
    · simp [controlStep, hi, hout]
    · simp [stepsLeft, ControlPlane.setRequest, hi]
  | written line => exact absurd hi (hne line)
  | closed =>
    rw [hi] at hr
    simp [Performs] at hr

/-! ### Every run -/

/-- The client can still come to this by its own steps, and leaves the others where they are. -/
def Completes (T : ControlSetup) (s : ControlPlane) (i : ℕ) (action : ClientAction) : Prop :=
  ∃ es s', (∀ e ∈ es, e.client = some i) ∧ (controlSystem T).run s es = some s' ∧
    s'.results i = some (.ok action) ∧ ∀ j ≠ i, s.Still s' j

theorem Completes.step {e : ControlEvent} {action : ClientAction} (he : e.client = some i)
    (hst : controlStep T s e = some s') (h : T.Completes s' i action) :
    T.Completes s i action := by
  obtain ⟨es, s₂, hes, hrun, hres, hstill⟩ := h
  have hothers : ∀ j ≠ i, e.client ≠ some j := by
    intro j hj hej
    exact hj (Option.some.inj (hej.symm.trans he))
  refine ⟨e :: es, s₂, List.forall_mem_cons.2 ⟨he, hes⟩, ?_, hres, fun j hj =>
    (still_of_step hst (hothers j hj)).trans (hstill j hj)⟩
  rw [System.run_cons, show (controlSystem T).step s e = some s' from hst]
  exact hrun

/-- What has been performed is shown. -/
theorem Performed.exists_shows {path : String}
    (hop : (T.client i).cli.cmd.request (T.client i).size = some op)
    (htarget : cfg.requireSshTarget path = .ok target) (h : T.Performed s i op r) :
    ∃ action, (T.client i).cli.cmd.Shows path cfg r action := by
  obtain ⟨host, hhost⟩ := Config.resolveTcpHost_of_target htarget
  cases hcmd : (T.client i).cli.cmd with
  | create =>
    rw [hcmd] at hop
    cases hop
    cases r with
    | bootstrap p id pskHex =>
      obtain ⟨rfl, -, j, psk, -, rfl⟩ := h
      refine ⟨.interactive host T.port id psk, host, hhost, ?_⟩
      rw [openSession, parsePsk_hexEncode]
      rfl
    | _ => cases h
  | attach id =>
    rw [hcmd] at hop
    cases hop
    cases r with
    | bootstrap p id' pskHex =>
      obtain ⟨rfl, -, c, psk, -, -, rfl⟩ := h
      refine ⟨.interactive host T.port id' psk, host, hhost, ?_⟩
      rw [openSession, parsePsk_hexEncode]
      rfl
    | _ => cases h
  | ls =>
    rw [hcmd] at hop
    cases hop
    cases r with
    | ls l => cases l <;> exact ⟨_, rfl⟩
    | _ => cases h
  | kill id =>
    rw [hcmd] at hop
    cases hop
    cases r with
    | ok => exact ⟨_, rfl⟩
    | _ => cases h
  | connect host' id psk =>
    rw [hcmd] at hop
    cases hop

/-- The answer that has been written reaches the client. -/
theorem Ready.completes_written (hreq : T.requests.Lawful) (hresp : T.responses.Lawful)
    (h : T.Ready i cfg target op json) (hs : (controlSystem T).Reachable s)
    (hres : s.results i = none) {line : List Char} (hi : s.requests i = .written line)
    (hr : T.Offers s i r) :
    ∃ action, (T.client i).cli.cmd.Shows T.path cfg r action ∧ T.Completes s i action := by
  unfold Offers at hr
  rw [hi] at hr
  obtain ⟨⟨out, hout, rfl⟩, hok⟩ := hr
  have hserve := (control_ok hreq hresp hs).requests i op cfg.port h.plan
  rw [hi] at hserve
  obtain ⟨r', out', hout', hline, hans⟩ := hserve
  -- what is written is the answer to the client's own request
  have hsame : out' = out := String.toList_injective (List.append_cancel_right hline).symm
  subst hsame
  obtain rfl : r = r' := Except.ok.inj ((hresp.fromStr _ _ hout).symm.trans
    (hresp.fromStr _ _ hout'))
  rcases hans with ⟨message, rfl⟩ | ⟨-, hperf⟩
  · exact hok.elim
  · obtain ⟨action, hshows⟩ := hperf.exists_shows h.request h.target
    have hfinish := h.step_finish hresp hres hi hout hshows
    exact ⟨action, hshows, Completes.step rfl hfinish
      ⟨[], _, by simp, rfl, Function.update_self _ _ _, fun _ _ => ⟨rfl, rfl, rfl⟩⟩⟩

/-- A client comes to every answer that is open to it. -/
theorem Ready.completes (hreq : T.requests.Lawful) (hresp : T.responses.Lawful)
    (h : T.Ready i cfg target op json) (hout : T.responses.Writes r) :
    ∀ {s}, (controlSystem T).Reachable s → s.results i = none → T.Offers s i r →
      ∃ action, (T.client i).cli.cmd.Shows T.path cfg r action ∧ T.Completes s i action := by
  intro s hs hres hr
  induction hn : stepsLeft s i using Nat.strong_induction_on generalizing s with
  | _ n ih =>
    by_cases hwritten : ∃ line, s.requests i = .written line
    · obtain ⟨line, hi⟩ := hwritten
      exact h.completes_written hreq hresp hs hres hi hr
    · obtain ⟨e, s', he, hst, hres', hr', hlt⟩ := hr.closer hreq h (control_ok hreq hresp hs) hout
        (not_exists.1 hwritten)
      obtain ⟨action, hshows, hcompletes⟩ :=
        ih _ (hn ▸ hlt) (hs.step trivial hst) (hres'.trans hres) hr' rfl
      exact ⟨action, hshows, hcompletes.step he hst⟩

theorem Settled.still (h : T.Settled s i) (hst : s.Still s' i) : T.Settled s' i := by
  unfold Settled at h ⊢
  rw [hst.request, hst.phase]
  exact h

/-- `map.values()` may yield the sessions in the order of the map. -/
theorem exists_yields (s : ControlPlane) : ∃ values, s.yields values = true := by
  refine ⟨s.entries.map fun a => { a with status := "detached" }, ?_⟩
  have hsame : (s.entries.map fun a => { a with status := "detached" }).map
      (fun a => { a with status := "" }) = s.entries := by
    rw [List.map_map]
    refine (List.map_congr_left fun a ha => ?_).trans (List.map_id _)
    obtain ⟨e, -, rfl⟩ := List.mem_map.1 ha
    rfl
  simp [ControlPlane.yields, hsame, List.isPerm_iff]

/-- Past the checks, an answer is open. -/
theorem Settled.exists_offers (h : T.Settled s i) : ∃ r, T.Offers s i r := by
  unfold Settled at h
  cases hi : s.requests i with
  | creating =>
    rw [hi] at h
    obtain ⟨hdrawing, hfailed⟩ := h
    refine ⟨.bootstrap T.port (s.registrations.creations i).id
      (hexEncode (s.sessions i).psk.toList), Performs.offers hi ⟨rfl, _, rfl, ?_⟩⟩
    cases hphase : (s.registrations.creations i).phase with
    | drawing => exact absurd hphase hdrawing
    | drawn => rfl
    | failed => exact absurd hphase hfailed
    | _ => exact ⟨rfl, rfl⟩
  | attaching id c a =>
    rw [hi] at h
    obtain rfl : a = .free := h
    exact ⟨.bootstrap T.port id (hexEncode (s.sessions c).psk.toList),
      Performs.offers hi ⟨rfl, rfl, ⟨_, rfl⟩, trivial⟩⟩
  | listing =>
    obtain ⟨values, hv⟩ := exists_yields s
    exact ⟨.ls (ControlPlane.byAge values), Performs.offers hi ⟨values, hv, rfl⟩⟩
  | killing c => exact ⟨.ok, Performs.offers hi trivial⟩
  | answered r =>
    rw [hi] at h
    exact ⟨r, Performs.offers hi ⟨rfl, h⟩⟩
  | written line =>
    rw [hi] at h
    obtain ⟨r, json, hjson, hline, hok⟩ := h
    exact ⟨r, Performs.offers hi ⟨⟨json, hjson, hline⟩, hok⟩⟩
  | _ =>
    rw [hi] at h
    cases h

/-! ### What is open at first -/

/-- A client that has sent nothing can be answered as `execute_control` performs its request. -/
theorem Ready.offers (h : T.Ready i cfg target op json) (hw : s.requests i = .waiting)
    (hr : T.Performs s i (.operation op) r) : T.Offers s i r := by
  unfold Offers
  rw [hw]
  exact ⟨op, h.request, hr⟩

theorem Ready.offers_create (hs : (controlSystem T).Reachable s)
    (h : T.Ready i cfg target op json) (hw : s.requests i = .waiting)
    (hcmd : (T.client i).cli.cmd = .create) {n : UInt32} (psk : Psk)
    (hn : s.registrations.registry.contains (hex8 n) = false) :
    T.Offers s i (.bootstrap T.port (hex8 n) (hexEncode psk.toList)) := by
  have hop := h.request
  rw [hcmd] at hop
  cases hop
  have hphase : (s.registrations.creations i).phase = .drawing := by
    rw [control_early hs i (by rw [hw]; rfl)]
    rfl
  refine h.offers hw ⟨rfl, psk, rfl, ?_⟩
  rw [hphase]
  exact ⟨n, rfl, hn⟩

theorem Ready.offers_attach (h : T.Ready i cfg target op json) (hw : s.requests i = .waiting)
    {id : String} (hcmd : (T.client i).cli.cmd = .attach id) {c : SessionRef} (psk : Psk)
    (hget : s.registrations.registry.get id = some c)
    (hended : (s.registrations.creations c).ended = false)
    (hconnected : (s.sessions c).connected = false) :
    T.Offers s i (.bootstrap T.port id (hexEncode psk.toList)) := by
  have hop := h.request
  rw [hcmd] at hop
  cases hop
  exact h.offers hw ⟨rfl, rfl, ⟨psk, rfl⟩, c, hget, hended, hconnected⟩

theorem Ready.offers_ls (h : T.Ready i cfg target op json) (hw : s.requests i = .waiting)
    (hcmd : (T.client i).cli.cmd = .ls) {values : List SessionInfo}
    (hv : s.yields values = true) : T.Offers s i (.ls (ControlPlane.byAge values)) := by
  have hop := h.request
  rw [hcmd] at hop
  cases hop
  exact h.offers hw ⟨values, hv, rfl⟩

theorem Ready.offers_kill (h : T.Ready i cfg target op json) (hw : s.requests i = .waiting)
    {id : String} (hcmd : (T.client i).cli.cmd = .kill id) {c : SessionRef}
    (hget : s.registrations.registry.get id = some c) : T.Offers s i .ok := by
  have hop := h.request
  rw [hcmd] at hop
  cases hop
  exact h.offers hw ⟨c, hget⟩

/-- What is shown of a `Bootstrap` is the session to go on with. -/
theorem shows_bootstrap {action : ClientAction} {p : UInt16} {id : String} {psk : Psk}
    (hcmd : (T.client i).cli.cmd = .create ∨ ∃ id, (T.client i).cli.cmd = .attach id)
    (h : (T.client i).cli.cmd.Shows T.path cfg (.bootstrap p id (hexEncode psk.toList)) action) :
    ∃ host, cfg.resolveTcpHost T.path = .ok host ∧ action = .interactive host p id psk := by
  have hopen : ∃ host, cfg.resolveTcpHost T.path = .ok host ∧
      openSession host (.bootstrap p id (hexEncode psk.toList)) = .ok action := by
    rcases hcmd with hcmd | ⟨id', hcmd⟩ <;> rw [hcmd] at h <;> exact h
  obtain ⟨host, hhost, h⟩ := hopen
  rw [openSession, parsePsk_hexEncode] at h
  exact ⟨host, hhost, (Except.ok.inj h).symm⟩

end Step

end ControlSetup

/-- **No request stands in the way of another.**  In every state, whatever other clients have left
behind, a client that is ready can succeed by its own steps, and the others stay where they are: a
`create` with any id that is free and any key, an `attach` to any session that is neither ended nor
busy, a `kill` of any session, and `ls`.  So can a request that is under way, with every answer
that is open to it, and once it has passed its checks no steps of the others close them all. -/
theorem command_completes {cfg : Config} {target json : String} {op : ControlRequest}
    (hreq : T.requests.Lawful) (hresp : T.responses.Lawful)
    (hs : (controlSystem T).Reachable s) (h : T.Ready i cfg target op json)
    (hres : s.results i = none) :
    (s.requests i = .waiting →
      (∀ n psk, (T.client i).cli.cmd = .create →
          s.registrations.registry.contains (hex8 n) = false →
          T.responses.Writes (.bootstrap T.port (hex8 n) (hexEncode psk.toList)) →
          ∃ host, cfg.resolveTcpHost T.path = .ok host ∧
            T.Completes s i (.interactive host T.port (hex8 n) psk)) ∧
        (∀ id c psk, (T.client i).cli.cmd = .attach id →
          s.registrations.registry.get id = some c →
          (s.registrations.creations c).ended = false → (s.sessions c).connected = false →
          T.responses.Writes (.bootstrap T.port id (hexEncode psk.toList)) →
          ∃ host, cfg.resolveTcpHost T.path = .ok host ∧
            T.Completes s i (.interactive host T.port id psk)) ∧
        (∀ values, (T.client i).cli.cmd = .ls → s.yields values = true →
          T.responses.Writes (.ls (ControlPlane.byAge values)) →
          ∃ lines, showSessions (.ls (ControlPlane.byAge values)) = .ok (.printed lines) ∧
            T.Completes s i (.printed lines)) ∧
        ∀ id c, (T.client i).cli.cmd = .kill id → s.registrations.registry.get id = some c →
          T.responses.Writes .ok → T.Completes s i (.printed ["killed " ++ id])) ∧
      (∀ r, T.Offers s i r → T.responses.Writes r →
        ∃ action, (T.client i).cli.cmd.Shows T.path cfg r action ∧ T.Completes s i action) ∧
      (T.Settled s i → ∀ es s', (∀ e ∈ es, e.client ≠ some i) →
        (controlSystem T).run s es = some s' →
        ∃ r, T.Offers s' i r ∧ (T.responses.Writes r →
          ∃ action, (T.client i).cli.cmd.Shows T.path cfg r action ∧
            T.Completes s' i action)) := by
  have hcomes : ∀ {r}, T.Offers s i r → T.responses.Writes r →
      ∃ action, (T.client i).cli.cmd.Shows T.path cfg r action ∧ T.Completes s i action :=
    fun hr hout => h.completes hreq hresp hout hs hres hr
  refine ⟨fun hw => ⟨fun n psk hcmd hn hout => ?_,
    fun id c psk hcmd hget hended hconnected hout => ?_, fun values hcmd hv hout => ?_,
    fun id c hcmd hget hout => ?_⟩, fun r => hcomes, fun hsettled es s' hes hrun => ?_⟩
  · obtain ⟨action, hshows, hcompletes⟩ := hcomes (h.offers_create hs hw hcmd psk hn) hout
    obtain ⟨host, hhost, rfl⟩ := ControlSetup.shows_bootstrap (.inl hcmd) hshows
    exact ⟨host, hhost, hcompletes⟩
  · obtain ⟨action, hshows, hcompletes⟩ :=
      hcomes (h.offers_attach hw hcmd psk hget hended hconnected) hout
    obtain ⟨host, hhost, rfl⟩ := ControlSetup.shows_bootstrap (.inr ⟨id, hcmd⟩) hshows
    exact ⟨host, hhost, hcompletes⟩
  · obtain ⟨action, hshows, hcompletes⟩ := hcomes (h.offers_ls hw hcmd hv) hout
    rw [hcmd] at hshows
    obtain ⟨lines, rfl⟩ : ∃ lines, action = .printed lines := by
      cases hl : ControlPlane.byAge values <;> rw [hl] at hshows <;> cases hshows <;>
        exact ⟨_, rfl⟩
    exact ⟨lines, hshows, hcompletes⟩
  · obtain ⟨action, hshows, hcompletes⟩ := hcomes (h.offers_kill hw hcmd hget) hout
    rw [hcmd] at hshows
    cases hshows
    exact hcompletes
  · have hstill := still_of_run hes hrun
    obtain ⟨r, hr⟩ := (hsettled.still hstill).exists_offers
    have hs' := System.ReachableWith.run hs (fun _ _ _ => trivial) hrun
    exact ⟨r, hr, fun hout =>
      h.completes hreq hresp hout hs' (hstill.result.trans hres) hr⟩

/-- In the crowd, of which nobody is done, every new client can be served, the attach that has
looked at its session too, and the creation that has drawn its id whatever the others do. -/
theorem command_completes_crowdRun : ∃ s, (controlSystem crowdSetup).Reachable s ∧
    (s.requests 0 = .answered (.bootstrap 60000 "00000007" (hexEncode (bytePsk 1).toList)) ∧
      s.requests 4 = .creating ∧ (s.registrations.creations 4).phase = .drawn ∧
      s.requests 1 = .attaching "00000007" 0 .live ∧
      s.requests 2 = .answered (.ls (ControlPlane.byAge [firstInfo])) ∧
      s.requests 3 = .killing 0) ∧
    (∃ host, crowdSetup.Completes s 8 (.interactive host 60000 (hex8 9) (bytePsk 1))) ∧
    (∃ host, crowdSetup.Completes s 5 (.interactive host 60000 "00000007" (bytePsk 2))) ∧
    (∃ lines, crowdSetup.Completes s 6 (.printed lines)) ∧
    crowdSetup.Completes s 7 (.printed ["killed 00000007"]) ∧
    (∃ action, crowdSetup.Completes s 1 action) ∧
    ∀ es s', (∀ e ∈ es, e.client ≠ some 4) → (controlSystem crowdSetup).run s es = some s' →
      ∃ r, crowdSetup.Offers s' 4 r := by
  obtain ⟨s, hs, hmidway, hw, hres, hget, hfree, hended, hconnected, hv⟩ := exists_crowdRun
  obtain ⟨hreq, hresp⟩ := crowdSetup_lawful
  have hsingle : ControlPlane.byAge [firstInfo] = [firstInfo] := List.mergeSort_singleton _
  refine ⟨s, hs, hmidway, ?_, ?_, ?_, ?_, ?_, ?_⟩
  · have h := crowdSetup_ready 8 (pairRequest 0) rfl rfl (by decide)
    obtain ⟨hwaiting, -⟩ := command_completes hreq hresp hs h (hres 8)
    obtain ⟨hcreate, -⟩ := hwaiting (hw 8 (by decide))
    obtain ⟨host, -, hdone⟩ := hcreate 9 (bytePsk 1) rfl hfree ⟨secondAnswer, by decide⟩
    exact ⟨host, hdone⟩
  · have h := crowdSetup_ready 5 (pairRequest 1) (by decide) rfl (by decide)
    obtain ⟨hwaiting, -⟩ := command_completes hreq hresp hs h (hres 5)
    obtain ⟨-, hattach, -⟩ := hwaiting (hw 5 (by decide))
    obtain ⟨host, -, hdone⟩ :=
      hattach "00000007" 0 (bytePsk 2) rfl hget hended hconnected ⟨pairAnswer 2, by decide⟩
    exact ⟨host, hdone⟩
  · have h := crowdSetup_ready 6 lsRequest rfl rfl (by decide)
    obtain ⟨hwaiting, -⟩ := command_completes hreq hresp hs h (hres 6)
    obtain ⟨-, -, hls, -⟩ := hwaiting (hw 6 (by decide))
    obtain ⟨lines, -, hdone⟩ := hls [firstInfo] rfl hv ⟨lsAnswer, by rw [hsingle]; decide⟩
    exact ⟨lines, hdone⟩
  · have h := crowdSetup_ready 7 killRequest (by decide) rfl (by decide)
    obtain ⟨hwaiting, -⟩ := command_completes hreq hresp hs h (hres 7)
    obtain ⟨-, -, -, hkill⟩ := hwaiting (hw 7 (by decide))
    exact hkill "00000007" 0 rfl hget ⟨"\"ok\"", by decide⟩
  · obtain ⟨-, -, -, hattaching, -⟩ := hmidway
    have h := crowdSetup_ready 1 (pairRequest 1) (by decide) rfl (by decide)
    obtain ⟨-, hopen, -⟩ := command_completes hreq hresp hs h (hres 1)
    have hoffers : crowdSetup.Offers s 1
        (.bootstrap 60000 "00000007" (hexEncode (bytePsk 2).toList)) :=
      ControlSetup.Performs.offers hattaching ⟨rfl, rfl, ⟨bytePsk 2, rfl⟩, hconnected⟩
    obtain ⟨action, -, hdone⟩ := hopen _ hoffers ⟨pairAnswer 2, by decide⟩
    exact ⟨action, hdone⟩
  · obtain ⟨-, hcreating, hdrawn, -⟩ := hmidway
    have h := crowdSetup_ready 4 (pairRequest 0) rfl rfl (by decide)
    obtain ⟨-, -, hsettled⟩ := command_completes hreq hresp hs h (hres 4)
    have hpast : crowdSetup.Settled s 4 := by
      unfold ControlSetup.Settled
      rw [hcreating]
      exact ⟨by rw [hdrawn]; decide, by rw [hdrawn]; decide⟩
    intro es s' hes hrun
    obtain ⟨r, hr, -⟩ := hsettled hpast es s' hes hrun
    exact ⟨r, hr⟩

end Thther
