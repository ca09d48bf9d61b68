import Thther.Commands

/-!
# The keys that commands go on with

Every `rotate_psk` shuts out the holders of older keys.  As keys are drawn at random, those of a
run are taken to be distinct.

* `keys_exclusive`: a key opens only the session it was handed out for, and of all clients that
  have attached to a session one at most has the key that opens it.
-/

namespace Thther

/-- The command goes on with a key from the daemon. -/
def Cmd.bootstraps : Cmd → Bool
  | create | attach _ => true
  | _ => false

/-- The client goes on with this key, for the session of this id. -/
structure ControlSetup.Holds (T : ControlSetup) (s : ControlPlane) (i : ℕ) (id : String)
    (psk : Psk) : Prop where
  bootstraps : (T.client i).cli.cmd.bootstraps = true
  plain : (T.client i).cli.cmd.plain = true
  result : ∃ host p, s.results i = some (.ok (.interactive host p id psk))

/-- The session is there, and this is its key. -/
structure ControlPlane.Opens (s : ControlPlane) (psk : Psk) (d : SessionRef) : Prop where
  started : (s.registrations.creations d).started .reader = true
  psk : (s.sessions d).psk = psk

variable {T : ControlSetup} {s : ControlPlane} {i : ℕ} {id : String} {psk : Psk}

namespace ControlSetup

/-- The key was drawn for a session that is inserted under the id, and for an `attach` by itself. -/
theorem Holds.minted (h : T.Holds s i id psk) (hs : s.Ok T) :
    ∃ c j, ⟨c, j, psk⟩ ∈ s.minted ∧ s.Registered c id ∧
      ∀ id', (T.client i).cli.cmd = .attach id' → j = i := by
  obtain ⟨host, p, hres⟩ := h.result
  have hdone := hs.results i _ h.plain hres
  have hboot := h.bootstraps
  unfold Done at hdone
  cases hcmd : (T.client i).cli.cmd with
  | create =>
    rw [hcmd] at hdone
    obtain ⟨hopened, j, hj⟩ := hdone
    exact ⟨i, j, hj, hopened.registered, nofun⟩
  | attach id' =>
    rw [hcmd] at hdone
    obtain ⟨-, c, hopened, hm⟩ := hdone
    exact ⟨c, i, hm, hopened.registered, fun _ _ => rfl⟩
  | _ =>
    rw [hcmd] at hboot
    cases hboot

end ControlSetup

/-- The key that opens a session was the last one drawn for it. -/
theorem ControlPlane.Opens.last {d : SessionRef} (h : s.Opens psk d) (hs : s.Ok T) :
    ∃ j, (s.keysOf d).getLast? = some ⟨d, j, psk⟩ := by
  obtain ⟨j, hj⟩ := (hs.filed d).key h.started
  rw [h.psk] at hj
  exact ⟨j, hj⟩

theorem ControlPlane.mem_minted_of_last {d : SessionRef} {m : Minted}
    (h : (s.keysOf d).getLast? = some m) : m ∈ s.minted :=
  List.mem_of_mem_filter (List.mem_of_getLast? h)

/-- **A key is of use to one client, for one session.**  Where the keys drawn are distinct, a key
that a client of `create` or `attach` holds opens no session but the one of the id that came with
it; the key of an `attach` opens it until the next one is drawn, and two clients that have attached
never both hold a key that opens the same session.  (A `create` reads the key of its session after
the insertion, and may find the one of an `attach`.) -/
theorem keys_exclusive (hreq : T.requests.Lawful) (hresp : T.responses.Lawful)
    (hs : (controlSystem T).Reachable s) (hdistinct : (s.minted.map Minted.psk).Nodup) :
    (∀ i id psk d, T.Holds s i id psk → s.Opens psk d → s.Registered d id) ∧
      (∀ i id id' psk, (T.client i).cli.cmd = .attach id' → T.Holds s i id psk →
        ∃ c, s.Registered c id ∧
          (s.Opens psk c ↔ (s.keysOf c).getLast? = some ⟨c, i, psk⟩)) ∧
      ∀ i j id₁ id₂ id₁' id₂' psk₁ psk₂ d, (T.client i).cli.cmd = .attach id₁' →
        (T.client j).cli.cmd = .attach id₂' → T.Holds s i id₁ psk₁ → T.Holds s j id₂ psk₂ →
        s.Opens psk₁ d → s.Opens psk₂ d → i = j := by
  have hok := control_ok hreq hresp hs
  have hinj : ∀ {m n : Minted}, m ∈ s.minted → n ∈ s.minted → m.psk = n.psk → m = n :=
    fun hm hn h => List.inj_on_of_nodup_map hdistinct hm hn h
  refine ⟨fun i id psk d hi hd => ?_, fun i id id' psk hcmd hi => ?_, ?_⟩
  · obtain ⟨c, j, hm, hreg, -⟩ := hi.minted hok
    obtain ⟨k, hk⟩ := hd.last hok
    cases hinj hm (ControlPlane.mem_minted_of_last hk) rfl
    exact hreg
  · obtain ⟨c, j, hm, hreg, hj⟩ := hi.minted hok
    rw [hj id' hcmd] at hm
    refine ⟨c, hreg, fun hopens => ?_, fun hlast => ⟨hreg.started_reader, ?_⟩⟩
    · obtain ⟨k, hk⟩ := hopens.last hok
      cases hinj hm (ControlPlane.mem_minted_of_last hk) rfl
      exact hk
    · obtain ⟨k, hk⟩ := (hok.filed c).key hreg.started_reader
      rw [hlast] at hk
      cases hk
      rfl
  · intro i j id₁ id₂ id₁' id₂' psk₁ psk₂ d hcmd₁ hcmd₂ hi hj hd₁ hd₂
    obtain ⟨c₁, k₁, hm₁, -, hk₁⟩ := hi.minted hok
    obtain ⟨c₂, k₂, hm₂, -, hk₂⟩ := hj.minted hok
    rw [← hk₁ id₁' hcmd₁, ← hk₂ id₂' hcmd₂]
    exact congrArg Minted.request (hinj hm₁ hm₂ (hd₁.psk.symm.trans hd₂.psk))

theorem keys_exclusive_pairRun : ∃ s : ControlPlane,
    s.results 0 = some (.ok (.interactive "host" 60000 "00000007" (bytePsk 1))) ∧
      s.results 1 = some (.ok (.interactive "host" 60000 "00000007" (bytePsk 2))) ∧
      ∃ c, s.Registered c "00000007" ∧ (s.Opens (bytePsk 2) c ↔
        (s.keysOf c).getLast? = some ⟨c, 1, bytePsk 2⟩) := by
  obtain ⟨s, hs, hres₀, hres₁, hm⟩ := exists_pairRun
  have hdistinct : (s.minted.map Minted.psk).Nodup := by
    rw [hm]
    decide
  obtain ⟨-, hlast, -⟩ := keys_exclusive pairSetup_lawful.1 pairSetup_lawful.2 hs hdistinct
  exact ⟨s, hres₀, hres₁, hlast 1 "00000007" "00000007" (bytePsk 2) rfl
    ⟨rfl, by decide, "host", 60000, hres₁⟩⟩

end Thther
