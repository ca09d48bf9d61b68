import Thther.Server.ControlRuns

/-!
# The sessions of the control plane

What `controlSystem` keeps of its sessions, whatever becomes of the requests.

* `ControlStep.grows`: what stays as it is once a session is inserted;
* `ControlStep.filed`: the id and the key of a session that has been started;
* `control_registrations`: the control plane is one run of `registrationSystem`;
* `list_live`: `registry.list` returns the live sessions.
-/

namespace Thther

namespace ControlPlane

/-- Session `c` is inserted under this id. -/
structure Registered (s : ControlPlane) (c : SessionRef) (id : String) : Prop where
  inserted : (s.registrations.creations c).inserted = true
  id : (s.registrations.creations c).id = id

/-- The keys drawn for a session, oldest first. -/
def keysOf (s : ControlPlane) (c : SessionRef) : List Minted := s.minted.filter (·.session = c)

/-- A line of a list is about session `c`. -/
structure Shows (s : ControlPlane) (c : SessionRef) (a : SessionInfo) : Prop where
  id : (s.registrations.creations c).id = a.id
  started : (s.sessions c).started = a.started
  cmd : (s.sessions c).cmd = a.cmd
  status : a.status = "attached" ∨ a.status = "detached"

/-- A list of sessions: by their age, no id twice, and each one inserted. -/
structure Listing (s : ControlPlane) (l : List SessionInfo) : Prop where
  sorted : l.Pairwise fun a b => a.started ≤ b.started
  nodup : (l.map SessionInfo.id).Nodup
  registered : ∀ a ∈ l, ∃ c, s.Registered c a.id ∧ s.Shows c a

/-- Once its shell has been started, a session has an id that was drawn, and the key that was drawn
last. -/
structure Filed (s : ControlPlane) (c : SessionRef) : Prop where
  drawn : (s.registrations.creations c).phase ≠ .drawing →
    ∃ n, (s.registrations.creations c).id = hex8 n
  id : (s.registrations.creations c).started .reader = true →
    (s.sessions c).id = (s.registrations.creations c).id
  key : (s.registrations.creations c).started .reader = true →
    ∃ j, (s.keysOf c).getLast? = some ⟨c, j, (s.sessions c).psk⟩

/-- What stays as it is. -/
structure Grows (s s' : ControlPlane) : Prop where
  registered : ∀ {c id}, s.Registered c id → s'.Registered c id
  started : ∀ {c id}, s.Registered c id → (s'.sessions c).started = (s.sessions c).started
  cmd : ∀ {c id}, s.Registered c id → (s'.sessions c).cmd = (s.sessions c).cmd
  kills : ∀ {c id}, s.Registered c id → (s.sessions c).kills ≤ (s'.sessions c).kills
  minted : s.minted <+: s'.minted

end ControlPlane

variable {T : ControlSetup} {s s' : ControlPlane}

/-! ### What stays as it is -/

namespace ControlPlane

/-- Where only requests and results change. -/
theorem Grows.of_eq (hr : s'.registrations = s.registrations) (hs : s'.sessions = s.sessions)
    (hm : s'.minted = s.minted) : s.Grows s' where
  registered h := ⟨by rw [hr]; exact h.inserted, by rw [hr]; exact h.id⟩
  started _ := by rw [hs]
  cmd _ := by rw [hs]
  kills _ := by rw [hs]
  minted := by rw [hm]

/-- Where one session changes, and keeps its age, its command and its kills. -/
theorem Grows.update {c : SessionRef} {y : SessionShared} (hr : s'.registrations = s.registrations)
    (hs : s'.sessions = Function.update s.sessions c y) (hm : s.minted <+: s'.minted)
    (hy : y.started = (s.sessions c).started ∧ y.cmd = (s.sessions c).cmd ∧
      (s.sessions c).kills ≤ y.kills) : s.Grows s' := by
  have hall : ∀ d, (s'.sessions d).started = (s.sessions d).started ∧
      (s'.sessions d).cmd = (s.sessions d).cmd ∧
      (s.sessions d).kills ≤ (s'.sessions d).kills := by
    intro d
    by_cases hd : d = c
    · subst hd
      rw [hs, Function.update_self]
      exact hy
    · rw [hs, Function.update_of_ne hd]
      exact ⟨rfl, rfl, le_rfl⟩
  exact ⟨fun h => ⟨by rw [hr]; exact h.inserted, by rw [hr]; exact h.id⟩, fun _ => (hall _).1,
    fun _ => (hall _).2.1, fun _ => (hall _).2.2, hm⟩

theorem Registered.later {r : Registrations} {e : RegistrationEvent} {c : SessionRef} {id : String}
    (h : s.Registered c id) (hr : registrationStep s.registrations e = some r) :
    (r.creations c).inserted = true ∧ (r.creations c).id = id := by
  obtain ⟨hlater, -⟩ := registrationStep_later hr c
  have hphase : (s.registrations.creations c).phase ≠ .drawing := by
    intro hp
    have hins := h.inserted
    rw [Creation.inserted, hp] at hins
    cases hins
  exact ⟨hlater.inserted h.inserted, (hlater.id hphase).2.trans h.id⟩

theorem Grows.registration {r : Registrations} {e : RegistrationEvent}
    (hr : registrationStep s.registrations e = some r) (h' : s'.registrations = r)
    (hs : s'.sessions = s.sessions) (hm : s'.minted = s.minted) : s.Grows s' where
  registered h := by
    obtain ⟨hi, hid⟩ := h.later hr
    exact ⟨by rw [h']; exact hi, by rw [h']; exact hid⟩
  started _ := by rw [hs]
  cmd _ := by rw [hs]
  kills _ := by rw [hs]
  minted := by rw [hm]

/-- The reader thread is started once. -/
theorem startReader_eq_some {r r' : Registrations} {c : SessionRef}
    (h : registrationStep r (.startReader c) = some r') :
    (r.creations c).phase = .drawn ∧
      r' = r.set c { r.creations c with phase := .readerStarted } := by
  simp only [registrationStep] at h
  split_ifs at h with hp
  cases h
  exact ⟨hp, rfl⟩

end ControlPlane

theorem ControlStep.grows (h : ControlStep T s s') : s.Grows s' := by
  cases h with
  | serve i phase h => exact .of_eq rfl rfl rfl
  | registration e r he hdraw hr => exact .registration hr rfl rfl rfl
  | spawnFailed i r message hi hr => exact .registration hr rfl rfl rfl
  | spawned i now shell psk r hi hr =>
    have hne : ∀ {c id}, s.Registered c id → c ≠ i := by
      rintro c id hc rfl
      have hins := hc.inserted
      rw [Creation.inserted, (ControlPlane.startReader_eq_some hr).1] at hins
      cases hins
    have hsame : ∀ {c id y}, s.Registered c id →
        Function.update s.sessions i y c = s.sessions c :=
      fun hc => Function.update_of_ne (hne hc) _ _
    exact ⟨fun hc => ⟨(hc.later hr).1, (hc.later hr).2⟩, fun hc => by dsimp only; rw [hsame hc],
      fun hc => by dsimp only; rw [hsame hc], fun hc => by dsimp only; rw [hsame hc],
      List.prefix_append _ _⟩
  | stored c value => exact .update rfl rfl List.prefix_rfl ⟨rfl, rfl, le_rfl⟩
  | rotated i id c a psk hi => exact .update rfl rfl (List.prefix_append _ _) ⟨rfl, rfl, le_rfl⟩
  | killed i c hi => exact .update rfl rfl List.prefix_rfl ⟨rfl, rfl, Nat.le_succ _⟩
  | finished i x ssh e hi hx he => exact .of_eq rfl rfl rfl

theorem ControlPlane.Listing.mono {l : List SessionInfo} (h : s.Listing l) (hg : s.Grows s') :
    s'.Listing l where
  sorted := h.sorted
  nodup := h.nodup
  registered a ha := by
    obtain ⟨c, hc, ha⟩ := h.registered a ha
    have hc' := hg.registered hc
    exact ⟨c, hc', hc'.id, (hg.started hc).trans ha.started, (hg.cmd hc).trans ha.cmd, ha.status⟩

/-! ### Sessions -/

namespace ControlPlane

theorem keysOf_of_eq (hm : s'.minted = s.minted) (c : SessionRef) :
    s'.keysOf c = s.keysOf c := by
  rw [keysOf, keysOf, hm]

/-- A key is drawn for one session. -/
theorem keysOf_concat {m : Minted} (hm : s'.minted = s.minted ++ [m]) (c : SessionRef) :
    s'.keysOf c = if m.session = c then s.keysOf c ++ [m] else s.keysOf c := by
  rw [keysOf, hm, List.filter_append]
  split_ifs with h
  · simp [keysOf, h]
  · simp [keysOf, h]

theorem Filed.mem_minted {c : SessionRef} (h : s.Filed c)
    (hst : (s.registrations.creations c).started .reader = true) :
    ∃ j, ⟨c, j, (s.sessions c).psk⟩ ∈ s.minted := by
  obtain ⟨j, hj⟩ := h.key hst
  exact ⟨j, List.mem_of_mem_filter (List.mem_of_getLast? hj)⟩

theorem Filed.of_eq {c : SessionRef} (h : s.Filed c)
    (hr : s'.registrations.creations c = s.registrations.creations c)
    (hid : (s'.sessions c).id = (s.sessions c).id)
    (hpsk : (s'.sessions c).psk = (s.sessions c).psk) (hm : s'.keysOf c = s.keysOf c) :
    s'.Filed c := by
  refine ⟨?_, ?_, ?_⟩
  · rw [hr]
    exact h.drawn
  · rw [hr, hid]
    exact h.id
  · rw [hr, hpsk, hm]
    exact h.key

theorem Filed.registration {r : Registrations} {e : RegistrationEvent} {c : SessionRef}
    (h : s.Filed c) (he : ∀ c, e ≠ .startReader c)
    (hr : registrationStep s.registrations e = some r) (h' : s'.registrations = r)
    (hs : s'.sessions = s.sessions) (hm : s'.minted = s.minted) : s'.Filed c := by
  obtain ⟨hlater, hstarted⟩ := registrationStep_later hr c
  have hphase : (s.registrations.creations c).started .reader = true →
      (s.registrations.creations c).phase ≠ .drawing := by
    intro hst hp
    simp [Creation.started, hp] at hst
  refine ⟨fun hp => ?_, fun hst => ?_, fun hst => ?_⟩
  · rw [h'] at hp ⊢
    rcases hlater.drawn hp with hx | hn
    · obtain ⟨n, hn⟩ := h.drawn hx
      exact ⟨n, (hlater.id hx).2.trans hn⟩
    · exact hn
  · rw [h', hstarted he] at hst
    rw [hs, h.id hst, h', (hlater.id (hphase hst)).2]
  · rw [h', hstarted he] at hst
    rw [hs, keysOf_of_eq hm]
    exact h.key hst

/-- What the registry finds is inserted under the id asked for. -/
theorem registered_of_get (hinv : s.registrations.Inv) {id : String} {c : SessionRef}
    (h : s.registrations.registry.get id = some c) : s.Registered c id := by
  obtain ⟨hid, hi⟩ := (hinv c).keyed id h
  exact ⟨hi, hid⟩

theorem Registered.started_reader {c : SessionRef} {id : String} (h : s.Registered c id) :
    (s.registrations.creations c).started .reader = true := by
  have hi := h.inserted
  simp only [Creation.inserted, decide_eq_true_eq] at hi
  simp [Creation.started, hi]

theorem Registered.session_id {c : SessionRef} {id : String} (h : s.Registered c id)
    (hf : s.Filed c) : (s.sessions c).id = id :=
  (hf.id h.started_reader).trans h.id

/-- The handshake takes the id. -/
theorem Registered.length_id {c : SessionRef} {id : String} (h : s.Registered c id)
    (hf : s.Filed c) : (asBytes id).length = Handshake.sessionIdLen := by
  have hphase : (s.registrations.creations c).phase ≠ .drawing := by
    intro hp
    have hins := h.inserted
    rw [Creation.inserted, hp] at hins
    cases hins
  obtain ⟨n, hn⟩ := hf.drawn hphase
  rw [← h.id, hn, length_asBytes_hex8]

theorem mem_byAge {values : List SessionInfo} {a : SessionInfo} :
    a ∈ byAge values ↔ a ∈ values :=
  (List.mergeSort_perm _ _).mem_iff

/-- What `values` yields is about the sessions in the registry. -/
theorem exists_of_yields {values : List SessionInfo} (hf : ∀ c, s.Filed c)
    (hinv : s.registrations.Inv) (hv : s.yields values = true) {a : SessionInfo}
    (ha : a ∈ values) : ∃ c, s.registrations.registry.get a.id = some c ∧ s.Shows c a := by
  rw [yields, Bool.and_eq_true, List.isPerm_iff, List.all_eq_true] at hv
  obtain ⟨hperm, hstatus⟩ := hv
  obtain ⟨e, he, hea⟩ := List.mem_map.1 (hperm.mem_iff.1 (List.mem_map_of_mem ha))
  rw [SessionInfo.mk.injEq] at hea
  obtain ⟨hid, hstarted, -, hcmd⟩ := hea
  have hget : s.registrations.registry.get e.1 = some e.2 := AList.mem_lookup_iff.2 he
  have hreg := registered_of_get hinv hget
  have heid : e.1 = a.id := (hreg.session_id (hf e.2)).symm.trans hid
  refine ⟨e.2, by rw [← heid, hget], hreg.id.trans heid, hstarted, hcmd, ?_⟩
  simpa using hstatus a ha

/-- Every session in the registry is yielded. -/
theorem mem_of_yields {values : List SessionInfo} (hv : s.yields values = true) {id : String}
    {c : SessionRef} (hget : s.registrations.registry.get id = some c) :
    ∃ a ∈ values, a.id = (s.sessions c).id ∧ a.started = (s.sessions c).started ∧
      a.cmd = (s.sessions c).cmd ∧ (a.status = "attached" ∨ a.status = "detached") := by
  rw [yields, Bool.and_eq_true, List.isPerm_iff, List.all_eq_true] at hv
  obtain ⟨hperm, hstatus⟩ := hv
  have he : (⟨id, c⟩ : Sigma fun _ : String => SessionRef) ∈
      s.registrations.registry.map.entries := AList.mem_lookup_iff.1 hget
  obtain ⟨a, ha, hea⟩ := List.mem_map.1 (hperm.mem_iff.2 (List.mem_map_of_mem he))
  rw [SessionInfo.mk.injEq] at hea
  exact ⟨a, ha, hea.1, hea.2.1, hea.2.2.2, by simpa using hstatus a ha⟩

/-- `registry.list` gives a listing. -/
theorem listing_byAge {values : List SessionInfo} (hinv : s.registrations.Inv)
    (hf : ∀ c, s.Filed c) (hv : s.yields values = true) : s.Listing (byAge values) := by
  refine ⟨?_, ?_, fun a ha => ?_⟩
  · have hsorted : (byAge values).Pairwise fun a b => decide (a.started ≤ b.started) = true :=
      List.pairwise_mergeSort
        (fun a b c hab hbc => by
          rw [decide_eq_true_eq] at hab hbc ⊢
          exact UInt64.le_trans hab hbc)
        (fun a b => by
          rw [Bool.or_eq_true, decide_eq_true_eq, decide_eq_true_eq]
          exact UInt64.le_total a.started b.started)
        values
    exact hsorted.imp fun h => of_decide_eq_true h
  · refine ((List.mergeSort_perm _ _).map _).nodup_iff.2 ?_
    rw [yields, Bool.and_eq_true, List.isPerm_iff] at hv
    -- the ids are the keys of the registry
    have hperm := hv.1.map SessionInfo.id
    have hids : s.entries.map SessionInfo.id =
        s.registrations.registry.map.entries.map Sigma.fst := by
      rw [entries, List.map_map]
      refine List.map_congr_left fun e he => ?_
      exact (registered_of_get hinv (AList.mem_lookup_iff.2 he)).session_id (hf e.2)
    rw [List.map_map, hids] at hperm
    exact hperm.nodup_iff.2 s.registrations.registry.map.nodupKeys
  · obtain ⟨c, hget, hshows⟩ := exists_of_yields hf hinv hv (mem_byAge.1 ha)
    exact ⟨c, registered_of_get hinv hget, hshows⟩

end ControlPlane

theorem ControlStep.filed (h : ControlStep T s s') (hf : ∀ c, s.Filed c) : ∀ c, s'.Filed c := by
  intro c
  cases h with
  | serve i phase h => exact (hf c).of_eq rfl rfl rfl rfl
  | registration e r he hdraw hr => exact (hf c).registration he hr rfl rfl rfl
  | spawnFailed i r message hi hr =>
    exact (hf c).registration (e := .spawnFails i) nofun hr rfl rfl rfl
  | spawned i now shell psk r hi hr =>
    obtain ⟨hp, rfl⟩ := ControlPlane.startReader_eq_some hr
    by_cases hc : c = i
    · subst hc
      obtain ⟨n, hn⟩ := (hf c).drawn (by rw [hp]; nofun)
      refine ⟨fun _ => ⟨n, ?_⟩, fun _ => ?_, fun _ => ⟨c, ?_⟩⟩
      · rw [Registrations.set_creations_self]
        exact hn
      · dsimp only
        rw [Function.update_self]
        rfl
      · rw [ControlPlane.keysOf_concat (m := ⟨c, c, psk⟩) rfl, if_pos rfl, List.getLast?_concat]
        dsimp only
        rw [Function.update_self]
        rfl
    · refine (hf c).of_eq (s.registrations.set_creations_ne _ hc) ?_ ?_ ?_
      · dsimp only
        rw [Function.update_of_ne hc]
      · dsimp only
        rw [Function.update_of_ne hc]
      · rw [ControlPlane.keysOf_concat (m := ⟨i, i, psk⟩) rfl, if_neg (Ne.symm hc)]
  | stored d value =>
    by_cases hd : c = d
    · subst hd
      refine (hf c).of_eq rfl ?_ ?_ rfl <;> dsimp only <;> rw [Function.update_self] <;> rfl
    · refine (hf c).of_eq rfl ?_ ?_ rfl <;> dsimp only <;> rw [Function.update_of_ne hd]
  | rotated i id d a psk hi =>
    by_cases hd : c = d
    · subst hd
      refine ⟨(hf c).drawn, fun hst => ?_, fun _ => ⟨i, ?_⟩⟩
      · dsimp only
        rw [Function.update_self]
        exact (hf c).id hst
      · rw [ControlPlane.keysOf_concat (m := ⟨c, i, psk⟩) rfl, if_pos rfl, List.getLast?_concat]
        dsimp only
        rw [Function.update_self]
        rfl
    · refine (hf c).of_eq rfl ?_ ?_ ?_
      · dsimp only
        rw [Function.update_of_ne hd]
      · dsimp only
        rw [Function.update_of_ne hd]
      · rw [ControlPlane.keysOf_concat (m := ⟨d, i, psk⟩) rfl, if_neg (Ne.symm hd)]
  | killed i d hi =>
    by_cases hd : c = d
    · subst hd
      refine (hf c).of_eq rfl ?_ ?_ rfl <;> dsimp only <;> rw [Function.update_self] <;> rfl
    · refine (hf c).of_eq rfl ?_ ?_ rfl <;> dsimp only <;> rw [Function.update_of_ne hd]
  | finished i x ssh e hi hx he => exact (hf c).of_eq rfl rfl rfl rfl

/-! ### The registrations -/

/-- What an event is to the registrations. -/
def ControlEvent.registration : ControlEvent → Option RegistrationEvent
  | .draw i n => some (.draw i n)
  | .spawnFails i _ => some (.spawnFails i)
  | .spawn i _ _ _ => some (.startReader i)
  | .startReaper i => some (.startReaper i)
  | .insert i => some (.insert i)
  | .mark c t => some (.mark c t)
  | _ => none

theorem ControlPlane.register_step {i : ℕ} {e : RegistrationEvent}
    (h : s.register i e = some s') :
    registrationStep s.registrations e = some s'.registrations := by
  obtain ⟨-, r, hr, rfl⟩ := ControlPlane.register_eq_some h
  exact hr

theorem controlStep_registration {e : ControlEvent} (h : controlStep T s e = some s') :
    registrationSystem.StepOrStay s.registrations e.registration s'.registrations := by
  cases e with
  | draw i n => exact ControlPlane.register_step h
  | spawnFails i message =>
    obtain ⟨s₁, h₁, rfl⟩ := Option.map_eq_some_iff.1 h
    exact ControlPlane.register_step h₁
  | spawn i now shell psk =>
    obtain ⟨s₁, h₁, rfl⟩ := Option.map_eq_some_iff.1 h
    exact ControlPlane.register_step h₁
  | startReaper i => exact ControlPlane.register_step h
  | insert i => exact ControlPlane.register_step h
  | mark c t =>
    obtain ⟨r, hr, rfl⟩ := Option.map_eq_some_iff.1 h
    exact hr
  | store c value =>
    cases h
    rfl
  | finish i x ssh =>
    simp only [controlStep] at h
    split_ifs at h
    obtain ⟨e, he, rfl⟩ := Option.map_eq_some_iff.1 h
    rfl
  | attach i e =>
    simp only [controlStep] at h
    split at h
    · split at h
      · cases h
      all_goals
        cases h
        rfl
    · cases h
  | receive i part =>
    simp only [controlStep] at h
    split at h
    · split_ifs at h
      cases h
      rfl
    · cases h
  | list i values =>
    simp only [controlStep] at h
    split at h
    · split_ifs at h
      cases h
      rfl
    · cases h
  | created i =>
    simp only [controlStep] at h
    split at h
    · split_ifs at h
      cases h
      rfl
    · cases h
  | _ =>
    simp only [controlStep] at h
    split at h <;> cases h
    rfl

/-- **The control plane is one run of the registrations.** -/
theorem control_registrations {ok : Registrations → RegistrationEvent → Prop}
    (hs : (controlSystem T).ReachableWith
      (fun s e => ∀ a, e.registration = some a → ok s.registrations a) s) :
    registrationSystem.ReachableWith ok s.registrations := by
  refine hs.simulate ControlPlane.registrations (fun _ e => e.registration) (fun s hi => ?_)
    (fun s e s' _ hst => controlStep_registration hst) fun s e s' a _ hok _ ha => hok a ha
  exact hi.1

theorem control_filed (hs : (controlSystem T).Reachable s) : ∀ c, s.Filed c := by
  refine System.invariant (I := fun s => ∀ c, s.Filed c) (fun s hi c => ?_)
    (fun s e s' h hst => (controlStep_cases hst).filed h) hs
  refine ⟨?_, ?_, ?_⟩
  · rw [hi.1]
    exact fun hp => absurd rfl hp
  · rw [hi.1]
    nofun
  · rw [hi.1]
    nofun

/-- No draw is the id of a session about to be inserted, and `insert` does not come after the
session's own removal. -/
def Orderly (s : ControlPlane) (e : ControlEvent) : Prop :=
  ∀ a, e.registration = some a → FreshDraws s.registrations a ∧ InsertsFirst s.registrations a

/-- **`ls` shows the live sessions.** -/
theorem list_live (hs : (controlSystem T).ReachableWith Orderly s) {values : List SessionInfo}
    (hv : s.yields values = true) :
    s.Listing (ControlPlane.byAge values) ∧
      (∀ a ∈ ControlPlane.byAge values, ∃ c, s.Shows c a ∧
        (s.registrations.creations c).inserted = true ∧ ¬ (s.registrations.creations c).removed) ∧
      ∀ c, (s.registrations.creations c).inserted = true →
        ¬ (s.registrations.creations c).removed → ∃ a ∈ ControlPlane.byAge values, s.Shows c a := by
  have hreg : registrationSystem.ReachableWith (fun r a => FreshDraws r a ∧ InsertsFirst r a)
      s.registrations := control_registrations hs
  have hinv := registration_inv hreg.reachable
  have hfiled := control_filed hs.reachable
  have hheld : s.registrations.Held := held_of_freshDraws (hreg.mono fun _ _ h => h.1)
  have hlisted : ∀ c, (s.registrations.creations c).Listed s.registrations.registry c := by
    refine (System.invariant_with
      (I := fun r => r.Inv ∧ ∀ c, (r.creations c).Listed r.registry c) (fun r hi => ?_)
      (fun r e r' h hok hst => ⟨h.1.step hst, listed_step h.1 h.2 hok.2 hst⟩) hreg).2
    rw [show r = _ from hi]
    exact ⟨fun c => ⟨MarkEnded.ok_new, fun _ _ => rfl, nofun⟩, fun c => nofun⟩
  refine ⟨ControlPlane.listing_byAge hinv hfiled hv, fun a ha => ?_, fun c hi hr => ?_⟩
  · obtain ⟨c, hget, hshows⟩ :=
      ControlPlane.exists_of_yields hfiled hinv hv (ControlPlane.mem_byAge.1 ha)
    exact ⟨c, hshows, ((hinv c).keyed a.id hget).2, hlisted c a.id hget⟩
  · have hget := hheld.entry c hi hr
    obtain ⟨a, ha, hid, hstarted, hcmd, hstatus⟩ := ControlPlane.mem_of_yields hv hget
    have hreg' := ControlPlane.registered_of_get hinv hget
    exact ⟨a, ControlPlane.mem_byAge.2 ha, (hreg'.session_id (hfiled c)).symm.trans hid.symm,
      hstarted.symm, hcmd.symm, hstatus⟩

/-- A client of the crowd creates a session, while no other creation is under way. -/
theorem orderly_creating {s : ControlPlane} {i : ℕ} {n : UInt32} (now : UInt64) (shell : String)
    (psk : Psk) (hs : (controlSystem crowdSetup).ReachableWith Orderly s)
    (hcmd : crowdCmd i = .create) (hw : s.requests i = .waiting)
    (hnew : s.registrations.creations i = Creation.new)
    (hn : s.registrations.registry.contains (hex8 n) = false)
    (hpending : ∀ d, (s.registrations.creations d).pending = false) :
    (controlSystem crowdSetup).ReachableWith Orderly
      { registrations :=
          ⟨s.registrations.registry.insert (hex8 n) i, Function.update s.registrations.creations i
            { Creation.new with phase := .returned, id := hex8 n }⟩
        sessions := Function.update s.sessions i
          (SessionShared.new (hex8 n) now shell crowdSetup.ringBytes psk)
        requests := Function.update s.requests i
          (.answered (.bootstrap crowdSetup.port (hex8 n) (hexEncode psk.toList)))
        minted := s.minted ++ [⟨i, i, psk⟩]
        results := s.results } := by
  have h : crowdSetup.Ready i pairConfig "user@host" (.create 80 24) (pairRequest 0) :=
    crowdSetup_ready i (pairRequest 0) (by rw [hcmd]; rfl) (by rw [hcmd]; rfl) (by decide)
  have hreceived : (controlSystem crowdSetup).ReachableWith Orderly (s.setRequest i .creating) := by
    refine hs.run (fun s e he a ha => ?_) (h.run_receive crowdSetup_lawful.1 hw)
    -- neither event is one of the registrations
    rcases List.mem_cons.1 he with rfl | he
    · cases ha
    · rw [List.mem_singleton.1 he] at ha
      cases ha
  have hi : (s.setRequest i .creating).requests i = .creating := Function.update_self _ _ _
  have hrun := run_creating (T := crowdSetup) now shell psk hi hnew hn
  have hok : (controlSystem crowdSetup).RunMeets Orderly (s.setRequest i .creating)
      [.draw i n, .spawn i now shell psk, .startReaper i, .insert i, .created i] := by
    simp [System.RunMeets, controlSystem, controlStep, ControlPlane.register,
      ControlPlane.setRequest, hnew, hn, registrationStep, Registrations.set, Creation.new, Orderly,
      ControlEvent.registration, FreshDraws, InsertsFirst, hpending, Creation.removed,
      MarkEnded.Cleared]
  have hreached := hreceived.run_meets hok hrun
  simpa [ControlPlane.setRequest] using hreached

/-- Two sessions, the younger one first, as the map may yield them. -/
def youngerFirst : List SessionInfo :=
  [⟨"00000007", 2000, "detached", "/bin/sh"⟩, ⟨"00000003", 1000, "detached", "/bin/bash"⟩]

/-- Three clients of the crowd create sessions, the second at an earlier time than the first; the
third session ends and is removed.  The other two are shown by age. -/
theorem list_live_youngerFirst : ∃ s : ControlPlane, s.yields youngerFirst = true ∧
    ControlPlane.byAge youngerFirst = youngerFirst.reverse ∧
    s.Listing youngerFirst.reverse ∧
    (∀ a ∈ youngerFirst.reverse, ∃ c, s.Shows c a ∧
      (s.registrations.creations c).inserted = true ∧ ¬ (s.registrations.creations c).removed) ∧
    (∀ c, (s.registrations.creations c).inserted = true →
      ¬ (s.registrations.creations c).removed → ∃ a ∈ youngerFirst.reverse, s.Shows c a) ∧
    (s.registrations.creations 8).inserted = true ∧ (s.registrations.creations 8).removed := by
  have hpending : ∀ {f : SessionRef → Creation} {c : SessionRef} {id : String},
      (∀ d, (f d).pending = false) → ∀ d, (Function.update f c
        { Creation.new with phase := .returned, id := id } d).pending = false :=
    fun hf => (Function.forall_update_iff _ (p := fun _ (x : Creation) => x.pending = false)).2
      ⟨rfl, fun d _ => hf d⟩
  have hs := orderly_creating (i := 0) (n := 7) 2000 "/bin/sh" (bytePsk 1)
    (.init (s := pairStart) ⟨rfl, fun _ => rfl, rfl, fun _ => rfl⟩) rfl rfl rfl rfl fun _ => rfl
  have hs := orderly_creating (i := 4) (n := 3) 1000 "/bin/bash" (bytePsk 2) hs rfl rfl rfl rfl
    (hpending fun _ => rfl)
  have hs := orderly_creating (i := 8) (n := 9) 3000 "/bin/sh" (bytePsk 3) hs rfl rfl rfl rfl
    (hpending (hpending fun _ => rfl))
  obtain ⟨s, hs, hv, hinserted, hremoved⟩ :
      ∃ s : ControlPlane, (controlSystem crowdSetup).ReachableWith Orderly s ∧
        s.yields youngerFirst = true ∧ (s.registrations.creations 8).inserted = true ∧
        (s.registrations.creations 8).removed := by
    refine ⟨_, hs.run (fun s e he a ha => ?_) (show (controlSystem crowdSetup).run _
      [.mark 8 .reader, .mark 8 .reader, .mark 8 .reader, .mark 8 .reaper] = some _ from rfl),
      rfl, rfl, rfl, fun t => ?_⟩
    · simp only [List.mem_cons, List.not_mem_nil, or_false] at he
      rcases he with rfl | rfl | rfl | rfl <;> cases ha <;> exact ⟨trivial, trivial⟩
    · cases t <;> rfl
  have hsorted : ControlPlane.byAge youngerFirst = youngerFirst.reverse := by
    simp [ControlPlane.byAge, List.mergeSort, List.MergeSort.Internal.splitInTwo, youngerFirst]
  have hlive := list_live hs hv
  rw [hsorted] at hlive
  exact ⟨s, hv, hsorted, hlive.1, hlive.2.1, hlive.2.2, hinserted, hremoved⟩

end Thther
