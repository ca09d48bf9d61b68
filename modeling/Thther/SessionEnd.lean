import Thther.Server.WriterProtocol
import Thther.Typing

/-!
# The end of a session under attack

A client that reads `Ended` leaves.  The record is the daemon's, and it comes after everything
else on its connection; but where the connection begins, the daemon has from a hello that is not
authenticated.

* `Attacked.Writers`: what each connection of the daemon has sealed, from its offset on;
* `Attacked.Reading`: how far the client has come with it;
* `ended_shows_all`: a client that has read `Ended` has shown all output;
* `raised_offset_hides_output`: unless the offset of a hello is raised on the way.
-/

namespace Thther

open Transcript

variable {Key : Type} {A : Aead Key} {hkdf : List UInt8 → List UInt8 → List UInt8 → Key}
  {psk : Psk} {target n : ℕ} {s s' F : Attacked Key} {log : ℕ → List Frame} {start : ℕ → ℕ}

/-- A hello under the client's PSK arrives with an offset that the client has reached, and `Ended`
is sent to the client's session only when byte `n` of its output is behind the cursor. -/
def EndsBehind (psk : Psk) (target n : ℕ) (s : Attacked Key) : AttackedEvent → Prop
  | .accept k _ _ offset => s.channels.psks k = psk → offset ≤ s.client.received
  | .signal i f => f = .ended → s.sessionOf i = target →
    ∀ v, s.served i = some v → n ≤ v.cursor.toNat
  | _ => True

/-! ### What the daemon sends -/

/-- A frame that is written is sealed. -/
theorem Wrote.log_cases {ch ch' : Channels Key} {log' : ℕ → List Frame} {i : ℕ} {f : Frame}
    {ok : Bool} (h : Wrote A hkdf ch log i f ok ch' log') :
    log' = log ∧ ok = false ∨ log' = Function.update log i (log i ++ [f]) := by
  obtain ⟨c, hi, hlog⟩ := h.log
  have hw := h.write
  unfold Channels.write at hw
  rw [hi] at hw
  obtain ⟨ch₁, -, heq⟩ := Option.map_eq_some_iff.1 hw
  cases heq
  rw [hlog, writeFrame_call]
  rcases c.sealer.seal_cases A f.encode with ⟨-, hseal⟩ | ⟨counter, res, -, hseal, -⟩
  · left
    rw [writeFrame, hseal]
    exact ⟨rfl, rfl⟩
  · right
    rw [hseal]

theorem Channels.exists_wrote {ch ch' : Channels Key} {i : ℕ} {f : Frame} {ok : Bool}
    (h : ch.write A hkdf i f = some (ok, ch')) (log : ℕ → List Frame) :
    ∃ log', Wrote A hkdf ch log i f ok ch' log' := by
  cases hi : ch.ends[i]? with
  | none =>
    unfold Channels.write at h
    rw [hi] at h
    cases h
  | some c => exact ⟨_, h, c, hi, rfl⟩

/-- What is committed does not shrink, and a frame that is handled is committed. -/
theorem clientHandle_covers (o : SessionOutput (List (Segment UInt8))) (f : Frame) :
    o.received.toNat ≤ (clientHandle o f).2.received.toNat ∧
      ((clientHandle o f).1 = .ok () →
        ∀ c, f.endFrom c ≤ max c (clientHandle o f).2.received.toNat) := by
  cases f with
  | output offset data =>
    simp only [clientHandle, Frame.endFrom]
    rcases Nat.lt_or_ge (offset.toNat + data.length) (2 ^ 64) with hlt | hover
    · rcases Nat.lt_or_ge o.received.toNat (offset.toNat + data.length) with hnew | hold
      · have hend := toNat_ofNat_of_lt hlt
        rw [o.accept_recording hend (by omega)]
        dsimp only
        exact ⟨by omega, fun _ c => by omega⟩
      · rw [o.accept_of_le recording hold]
        dsimp only
        exact ⟨by omega, fun _ c => by omega⟩
    · rw [o.accept_overflow recording hover]
      exact ⟨Nat.le_refl _, nofun⟩
  | _ => exact ⟨Nat.le_refl _, fun _ c => Nat.le_max_left _ _⟩

/-- What the client has committed does not shrink. -/
theorem attackedStep_received {e : AttackedEvent} (h : attackedStep A hkdf psk s e = some s') :
    s.client.received.toNat ≤ s'.client.received.toNat := by
  cases e with
  | deliver bytes =>
    simp only [attackedStep] at h
    split at h
    · split at h
      · cases h
        exact Nat.le_refl _
      · rename_i f r opener hread
        split_ifs at h
        · cases h
          unfold Attacked.onFrame
          split
          · exact Nat.le_refl _
          · have hmono := (clientHandle_covers s.client f).1
            split <;> rename_i hhandle <;> rw [hhandle] at hmono <;> exact hmono
        · cases h
          exact Nat.le_refl _
        · cases h
          exact Nat.le_refl _
    · cases h
  | _ =>
    simp only [attackedStep] at h
    all_goals
      repeat' split at h
    all_goals
      first
      | cases h; done
      | cases h; exact Nat.le_refl _
      | obtain ⟨x, -, hx⟩ := Option.map_eq_some_iff.1 h
        cases hx
        exact Nat.le_refl _

section Daemon

variable [DecidableEq Key]

variable (A hkdf psk target n) in
/-- The frames `log` are what each end has sealed.  A connection of the daemon has gone from `start`
to its cursor, which the client has reached where it holds the client's PSK, and has sealed nothing
after an `Ended`. -/
structure Attacked.Writers (s : Attacked Key) (log : ℕ → List Frame) (start : ℕ → ℕ) : Prop where
  logged : Logged A hkdf s.channels log
  served : ∀ i v, s.served i = some v → (∃ c, s.channels.setups[i]? = some c ∧ c.party = .daemon) ∧
    cursorAfter (start i) (log i) = v.cursor.toNat ∧ .ended ∉ log i
  ended : ∀ (i : ℕ) c, s.channels.setups[i]? = some c → c.party = .daemon →
    s.sessionOf i = target → .ended ∈ log i →
    ∃ l, log i = l ++ [.ended] ∧ .ended ∉ l ∧ n ≤ cursorAfter (start i) l
  start : ∀ (i : ℕ) c, s.channels.setups[i]? = some c → c.party = .daemon → c.psk = psk →
    start i ≤ s.client.received.toNat

/-- The daemon writes a frame on a connection. -/
theorem Attacked.Writers.write_daemon (h : s.Writers A hkdf psk target n log start)
    (hf : Fresh hkdf s.channels.setups) {i : ℕ} {v : Served} {f : Frame} {ok : Bool}
    {ch : Channels Key} (hv : s.served i = some v)
    (hw : s.channels.write A hkdf i f = some (ok, ch))
    (hended : f = .ended → s.sessionOf i = target → n ≤ v.cursor.toNat) {w : Option Served}
    (hnext : ∀ w', w = some w' →
      ok = true ∧ f ≠ .ended ∧ w'.cursor.toNat = f.endFrom v.cursor.toNat) :
    ∃ log', Attacked.Writers A hkdf psk target n
      { s with channels := ch, served := Function.update s.served i w } log' start := by
  obtain ⟨log', hwrote⟩ := Channels.exists_wrote hw log
  obtain ⟨hsetups, -⟩ := hwrote.setups h.logged.reachable
  obtain ⟨hdaemon, hcursor, hnot⟩ := h.served i v hv
  have hother : ∀ j, j ≠ i → log' j = log j := by
    intro j hj
    rcases hwrote.log_cases with ⟨hlog, -⟩ | hlog
    · rw [hlog]
    · rw [hlog, Function.update_of_ne hj]
  refine ⟨log', h.logged.wrote hf hwrote, fun j w' hj => ?_, fun j c hj hc hsession hmem => ?_, ?_⟩
  · dsimp only at hj ⊢
    rw [hsetups]
    by_cases hji : j = i
    · subst hji
      rw [Function.update_self] at hj
      obtain ⟨hok, hne, hcur⟩ := hnext w' hj
      rcases hwrote.log_cases with ⟨-, hfail⟩ | hlog
      · rw [hok] at hfail
        cases hfail
      · refine ⟨hdaemon, ?_, ?_⟩
        · rw [hlog, Function.update_self, cursorAfter_append, hcursor, hcur]
          rfl
        · rw [hlog, Function.update_self, List.mem_append, List.mem_singleton]
          rintro (hold | hnew)
          · exact hnot hold
          · exact hne hnew.symm
    · rw [Function.update_of_ne hji] at hj
      rw [hother j hji]
      exact h.served j w' hj
  · dsimp only at hj hsession
    rw [hsetups] at hj
    by_cases hji : j = i
    · subst hji
      rcases hwrote.log_cases with ⟨hlog, -⟩ | hlog
      · rw [hlog] at hmem
        exact absurd hmem hnot
      · rw [hlog, Function.update_self] at hmem ⊢
        rcases List.mem_append.1 hmem with hold | hnew
        · exact absurd hold hnot
        · rw [List.mem_singleton] at hnew
          refine ⟨log j, by rw [hnew], hnot, ?_⟩
          rw [hcursor]
          exact hended hnew.symm hsession
    · rw [hother j hji] at hmem ⊢
      exact h.ended j c hj hc hsession hmem
  · dsimp only
    rw [hsetups]
    exact h.start

/-- The client writes a frame. -/
theorem Attacked.Writers.write_client (h : s.Writers A hkdf psk target n log start)
    (hf : Fresh hkdf s.channels.setups) {i : ℕ} {c : KeySetup} {f : Frame} {ok : Bool}
    {ch : Channels Key} (hi : s.channels.setups[i]? = some c) (hparty : c.party = .client)
    (hw : s.channels.write A hkdf i f = some (ok, ch)) :
    ∃ log', Attacked.Writers A hkdf psk target n { s with channels := ch } log' start := by
  obtain ⟨log', hwrote⟩ := Channels.exists_wrote hw log
  obtain ⟨hsetups, -⟩ := hwrote.setups h.logged.reachable
  have hdaemon : ∀ (j : ℕ) d, s.channels.setups[j]? = some d → d.party = .daemon →
      log' j = log j := by
    intro j d hj hd
    have hne : j ≠ i := by
      rintro rfl
      rw [hi, Option.some.injEq] at hj
      rw [← hj, hparty] at hd
      cases hd
    rcases hwrote.log_cases with ⟨hlog, -⟩ | hlog
    · rw [hlog]
    · rw [hlog, Function.update_of_ne hne]
  refine ⟨log', h.logged.wrote hf hwrote, fun j v hj => ?_, fun j d hj hd hsession hmem => ?_, ?_⟩
  · obtain ⟨⟨d, hd, hparty'⟩, hrest⟩ := h.served j v hj
    dsimp only
    rw [hsetups, hdaemon j d hd hparty']
    exact ⟨⟨d, hd, hparty'⟩, hrest⟩
  · dsimp only at hj
    rw [hsetups] at hj
    rw [hdaemon j d hj hd] at hmem ⊢
    exact h.ended j d hj hd hsession hmem
  · dsimp only
    rw [hsetups]
    exact h.start

/-- A new end, at the client. -/
theorem Attacked.Writers.add_client (h : s.Writers A hkdf psk target n log start) {c : KeySetup}
    {e : ChannelEvent} (he : channelStep A hkdf s.channels e = some (s.channels.add hkdf c))
    (hf : Fresh hkdf (s.channels.add hkdf c).setups) (hc : c.party = .client) :
    Attacked.Writers A hkdf psk target n { s with channels := s.channels.add hkdf c } log
      start := by
  have hold : ∀ {j : ℕ} {d}, (s.channels.add hkdf c).setups[j]? = some d → d.party = .daemon →
      s.channels.setups[j]? = some d := by
    intro j d hj hd
    rcases setups_add_cases hj with hj | ⟨-, rfl⟩
    · exact hj
    · rw [hc] at hd
      cases hd
  refine ⟨h.logged.add he hf, fun j v hj => ?_, fun j d hj hd => h.ended j d (hold hj hd) hd,
    fun j d hj hd => h.start j d (hold hj hd) hd⟩
  obtain ⟨⟨d, hd, hparty⟩, hrest⟩ := h.served j v hj
  exact ⟨⟨d, setups_add_of_some hd, hparty⟩, hrest⟩

/-- A new end, at the daemon. -/
theorem Attacked.Writers.add_daemon (h : s.Writers A hkdf psk target n log start) {c : KeySetup}
    {e : ChannelEvent} (he : channelStep A hkdf s.channels e = some (s.channels.add hkdf c))
    (hf : Fresh hkdf (s.channels.add hkdf c).setups) (hc : c.party = .daemon) {offset : UInt64}
    (hoffset : c.psk = psk → offset ≤ s.client.received) (k : ℕ) :
    Attacked.Writers A hkdf psk target n { s with
      channels := s.channels.add hkdf c
      sessionOf := Function.update s.sessionOf s.channels.ends.length k
      served := Function.update s.served s.channels.ends.length (some ⟨offset, .keyed⟩) } log
      (Function.update start s.channels.ends.length offset.toNat) := by
  have hnil : log s.channels.ends.length = [] := h.logged.unused _ (Nat.le_refl _)
  refine ⟨h.logged.add he hf, fun j v hj => ?_, fun j d hj hd hsession hmem => ?_,
    fun j d hj hd hpsk => ?_⟩
  · by_cases hjn : j = s.channels.ends.length
    · subst hjn
      dsimp only at hj
      rw [Function.update_self] at hj ⊢
      cases hj
      rw [hnil]
      exact ⟨⟨c, setups_add_self _ c, hc⟩, rfl, List.not_mem_nil⟩
    · dsimp only at hj
      rw [Function.update_of_ne hjn] at hj ⊢
      obtain ⟨⟨d, hd, hparty⟩, hrest⟩ := h.served j v hj
      exact ⟨⟨d, setups_add_of_some hd, hparty⟩, hrest⟩
  · by_cases hjn : j = s.channels.ends.length
    · rw [hjn, hnil] at hmem
      cases hmem
    · dsimp only at hsession
      rw [Function.update_of_ne hjn] at hsession ⊢
      rcases setups_add_cases hj with hj | ⟨hj, -⟩
      · exact h.ended j d hj hd hsession hmem
      · exact absurd hj hjn
  · rcases setups_add_cases hj with hj | ⟨rfl, rfl⟩
    · have hne : j ≠ s.channels.ends.length := Nat.ne_of_lt (lt_of_setups hj)
      rw [Function.update_of_ne hne]
      exact h.start j d hj hd hpsk
    · rw [Function.update_self]
      exact UInt64.le_iff_toNat_le.1 (hoffset hpsk)

/-- The client's connection or its output goes on. -/
theorem Attacked.Writers.client (h : s.Writers A hkdf psk target n log start)
    (hchannels : s'.channels = s.channels) (hserved : s'.served = s.served)
    (hsession : s'.sessionOf = s.sessionOf)
    (hreceived : s.client.received.toNat ≤ s'.client.received.toNat) :
    s'.Writers A hkdf psk target n log start := by
  refine ⟨hchannels ▸ h.logged, ?_, ?_, fun i c hi hc hpsk => ?_⟩
  · rw [hchannels, hserved]
    exact h.served
  · rw [hchannels, hsession]
    exact h.ended
  · rw [hchannels] at hi
    exact (h.start i c hi hc hpsk).trans hreceived

/-- A connection of the daemon goes on where it is. -/
theorem Attacked.Writers.serve (h : s.Writers A hkdf psk target n log start) {i : ℕ} {v : Served}
    {o : Option Served} (hv : s.served i = some v)
    (ho : ∀ w, o = some w → w.cursor = v.cursor) :
    Attacked.Writers A hkdf psk target n
      { s with served := Function.update s.served i o } log start := by
  refine ⟨h.logged, fun j w hj => ?_, h.ended, h.start⟩
  dsimp only at hj
  by_cases hji : j = i
  · subst hji
    rw [Function.update_self] at hj
    rw [ho w hj]
    exact h.served j v hv
  · rw [Function.update_of_ne hji] at hj
    exact h.served j w hj

/-- A connection of the daemon is dropped. -/
theorem Attacked.Writers.drop (h : s.Writers A hkdf psk target n log start) (i : ℕ) :
    Attacked.Writers A hkdf psk target n
      { s with served := Function.update s.served i none } log start := by
  refine ⟨h.logged, fun j v hj => ?_, h.ended, h.start⟩
  dsimp only at hj
  by_cases hji : j = i
  · subst hji
    rw [Function.update_self] at hj
    cases hj
  · rw [Function.update_of_ne hji] at hj
    exact h.served j v hj

theorem Attacked.Writers.step (h : s.Writers A hkdf psk target n log start)
    (hs : s.Honest A hkdf psk) (hlen : ∀ k, (s.feeds k).stream.length < 2 ^ 64)
    (hf : Fresh hkdf s'.channels.setups) {e : AttackedEvent} (hok : EndsBehind psk target n s e)
    (hst : attackedStep A hkdf psk s e = some s') :
    ∃ log start, s'.Writers A hkdf psk target n log start := by
  have hmono := attackedStep_received hst
  have hfresh : Fresh hkdf s.channels.setups := by
    obtain ⟨t, ht⟩ := attackedStep_setups hst
    rw [← ht] at hf
    exact hf.of_append
  cases e with
  | append k chunk =>
    cases hst
    exact ⟨log, start, h.client rfl rfl rfl hmono⟩
  | rotate k key =>
    obtain ⟨ch, hch, rfl⟩ := Option.map_eq_some_iff.1 (by simpa only [attackedStep] using hst)
    have hreach := Channels.reachable_step h.logged.reachable hch
    cases hch
    exact ⟨log, start, ⟨hreach, h.logged.sealed_, h.logged.unused⟩, h.served, h.ended, h.start⟩
  | accept k cn sn offset =>
    obtain ⟨ch, hch, rfl⟩ := Option.map_eq_some_iff.1 (by simpa only [attackedStep] using hst)
    have hadd : ch = s.channels.add hkdf ⟨.daemon, s.channels.psks k, cn, sn⟩ :=
      (Option.some.inj hch).symm
    subst hadd
    exact ⟨log, _, h.add_daemon hch hf rfl hok k⟩
  | resume i =>
    simp only [attackedStep] at hst
    split at hst
    · rename_i offset hv
      cases hst
      refine ⟨log, start, h.serve hv fun w hw => ?_⟩
      split_ifs at hw
      cases hw
      rfl
    · cases hst
  | authenticate i bytes =>
    simp only [attackedStep] at hst
    split at hst
    · rename_i cursor c hv hi
      split at hst
      · obtain ⟨⟨ok, ch⟩, hw, rfl⟩ := Option.map_eq_some_iff.1 hst
        obtain ⟨log', h'⟩ := h.write_daemon
          (w := if ok then some ⟨cursor, .greeted⟩ else none) hfresh hv hw
          (fun h => by cases h) fun w' hw' => by
            split_ifs at hw' with hok
            cases hw'
            exact ⟨hok, (fun h => by cases h), rfl⟩
        exact ⟨log', start, h'⟩
      · cases hst
        exact ⟨log, start, h.drop i⟩
    · cases hst
  | iterate i =>
    simp only [attackedStep] at hst
    split at hst
    · rename_i cursor hv
      obtain ⟨-, -, hcur, -⟩ := hs.served i _ hv
      have hcur := hcur (by simp)
      split at hst
      · rename_i f cursor' hr
        obtain ⟨⟨ok, ch⟩, hw, rfl⟩ := Option.map_eq_some_iff.1 hst
        obtain ⟨offset, bytes, rfl, -, hnext, -⟩ :=
          (hs.feeds (s.sessionOf i)).serverWriterRead_eq_some (hlen _) hr hcur
        obtain ⟨log', h'⟩ := h.write_daemon
          (w := if ok then some ⟨cursor', .greeted⟩ else none) hfresh hv hw
          (fun h => by cases h) fun w' hw' => by
            split_ifs at hw' with hok
            cases hw'
            exact ⟨hok, (fun h => by cases h), hnext⟩
        exact ⟨log', start, h'⟩
      · cases hst
        exact ⟨log, start, h⟩
    · cases hst
  | signal i f =>
    simp only [attackedStep] at hst
    split at hst
    · rename_i cursor hv
      split_ifs at hst with hsig
      obtain ⟨⟨ok, ch⟩, hw, rfl⟩ := Option.map_eq_some_iff.1 hst
      have hkeep : ∀ x, f.endFrom x = x := by
        rcases hsig with rfl | rfl | rfl <;> exact fun _ => rfl
      obtain ⟨log', h'⟩ := h.write_daemon
        (w := if ok ∧ f ≠ .ended then some ⟨cursor, .greeted⟩ else none) hfresh hv hw
        (fun hf hk => hok hf hk _ hv) fun w' hw' => by
          split_ifs at hw' with hok
          cases hw'
          exact ⟨hok.1, hok.2, (hkeep _).symm⟩
      exact ⟨log', start, h'⟩
    · cases hst
  | drop i =>
    cases hst
    exact ⟨log, start, h.drop i⟩
  | dial cn sn total =>
    simp only [attackedStep] at hst
    split_ifs at hst
    · cases hst
      exact ⟨log, start, h.client rfl rfl rfl hmono⟩
    · split at hst
      · cases hst
      · rename_i ch hch
        obtain ⟨⟨ok, ch'⟩, hw, rfl⟩ := Option.map_eq_some_iff.1 hst
        have hadd : ch = s.channels.add hkdf ⟨.client, psk, cn, sn⟩ := (Option.some.inj hch).symm
        subst hadd
        have hfresh₁ : Fresh hkdf (s.channels.add hkdf ⟨.client, psk, cn, sn⟩).setups := by
          obtain ⟨t, ht⟩ := Channels.write_setups hw
          dsimp only at hf
          rw [← ht] at hf
          exact hf.of_append
        have h₁ := h.add_client hch hfresh₁ rfl
        obtain ⟨log', h'⟩ := h₁.write_client hfresh₁ (setups_add_self _ _) rfl hw
        exact ⟨log', start, h'.client rfl rfl rfl hmono⟩
  | send f =>
    simp only [attackedStep] at hst
    split at hst
    · rename_i d hd
      obtain ⟨⟨ok, ch⟩, hw, rfl⟩ := Option.map_eq_some_iff.1 hst
      obtain ⟨hget, hparty, -⟩ := hs.dialed d hd
      obtain ⟨log', h'⟩ := h.write_client hfresh hget hparty hw
      exact ⟨log', start, h'.client rfl rfl rfl hmono⟩
    · cases hst
  | deliver bytes =>
    simp only [attackedStep] at hst
    split at hst
    · split at hst
      · cases hst
        exact ⟨log, start, h.client rfl rfl rfl hmono⟩
      · split_ifs at hst
        · cases hst
          refine ⟨log, start, h.client ?_ ?_ ?_ hmono⟩
          all_goals
            unfold Attacked.onFrame
            split
            · rfl
            · split <;> rfl
        · cases hst
          exact ⟨log, start, h.client rfl rfl rfl hmono⟩
        · cases hst
          exact ⟨log, start, h.client rfl rfl rfl hmono⟩
    · cases hst
  | cut =>
    cases hst
    exact ⟨log, start, h.client rfl rfl rfl hmono⟩

theorem attacked_writers
    (hs : (attackedSystem A hkdf psk).ReachableWith (EndsBehind psk target n) s)
    (hlen : ∀ k, (s.feeds k).stream.length < 2 ^ 64) (hf : Fresh hkdf s.channels.setups) :
    ∃ log start, s.Writers A hkdf psk target n log start := by
  have hall : (attackedSystem A hkdf psk).Reachable s ∧
      ((∀ k, (s.feeds k).stream.length < 2 ^ 64) → Fresh hkdf s.channels.setups →
        ∃ log start, s.Writers A hkdf psk target n log start) := by
    refine System.invariant_with (I := fun s => (attackedSystem A hkdf psk).Reachable s ∧
      ((∀ k, (s.feeds k).stream.length < 2 ^ 64) → Fresh hkdf s.channels.setups →
        ∃ log start, s.Writers A hkdf psk target n log start))
      (fun s hi => ⟨.init hi, fun _ _ => ?_⟩)
      (fun s e s' ih hok hst => ⟨ih.1.step trivial hst, fun hlen hf => ?_⟩) hs
    · obtain ⟨hends, henc, -, hserved, -⟩ := hi
      have hnone : ∀ j : ℕ, s.channels.setups[j]? = none := fun j => by
        rw [Channels.setups, hends]
        rfl
      refine ⟨fun _ => [], fun _ => 0, ⟨.init ⟨hends, henc⟩, fun j c hj => ?_, fun _ _ => rfl⟩,
        fun i v hv => ?_, fun i c hi => ?_, fun i c hi => ?_⟩
      · rw [hnone] at hj
        cases hj
      · rw [hserved] at hv
        cases hv
      · rw [hnone] at hi
        cases hi
      · rw [hnone] at hi
        cases hi
    · have hstep : attackedStep A hkdf psk s e = some s' := hst
      have hlen₀ : ∀ k, (s.feeds k).stream.length < 2 ^ 64 := fun k =>
        Nat.lt_of_le_of_lt (attackedStep_feeds hstep k).length_le (hlen k)
      have hf₀ : Fresh hkdf s.channels.setups := by
        obtain ⟨t, ht⟩ := attackedStep_setups hstep
        rw [← ht] at hf
        exact hf.of_append
      obtain ⟨log, start, h⟩ := ih.2 hlen₀ hf₀
      exact h.step (attacked_honest ih.1 hlen₀) hlen₀ hf hok hstep
  exact hall.2 hlen hf

/-! ### How far the client has come -/

variable (hkdf psk n) in
/-- What the client has read on its connection is the first part of what the daemon seals there in
the whole run, and it has committed the output in it. -/
structure Attacked.Reading (s F : Attacked Key) (start : ℕ → ℕ) : Prop where
  dialed : ∀ d, s.dialed = some d → ∃ reads, ReadsOf hkdf F.channels d.setup reads d.opener ∧
    ∀ i : ℕ, F.channels.setups[i]? = some d.setup.peer →
      cursorAfter (start i) reads ≤ max (start i) s.client.received.toNat
  ended : s.returned = some .ended → ∃ (i : ℕ) (c : KeySetup), F.channels.setups[i]? = some c ∧
    c.party = .daemon ∧ c.psk = psk ∧ n ≤ max (start i) s.client.received.toNat

/-- A client without a connection has read nothing on it. -/
theorem Attacked.Reading.undialed (hd : s.dialed = none)
    (hended : s.returned = some .ended → ∃ (i : ℕ) (c : KeySetup), F.channels.setups[i]? = some c ∧
      c.party = .daemon ∧ c.psk = psk ∧ n ≤ max (start i) s.client.received.toNat) :
    s.Reading hkdf psk n F start := by
  refine ⟨fun d h => ?_, hended⟩
  rw [hd] at h
  cases h

/-- The client reads a frame on its connection. -/
theorem Attacked.Reading.read (h : s.Reading hkdf psk n F start) {d : Dialed Key}
    (hd : s.dialed = some d) (hok : d.Ok hkdf psk s.channels.setups)
    (hF : F.Writers A hkdf psk target n log start) (hideal : IdealTraffic A hkdf F.channels)
    (howner : F.OwnPsk psk target) (hsub : s.channels.setups <+: F.channels.setups)
    {bytes r : List UInt8} {f : Frame} {opener : Opener Key}
    (hread : readFrame A bytes d.opener = (.ok f, r, opener)) :
    ∃ reads, ReadsOf hkdf F.channels d.setup (reads ++ [f]) opener ∧
      (∀ i : ℕ, F.channels.setups[i]? = some d.setup.peer →
        cursorAfter (start i) reads ≤ max (start i) s.client.received.toNat) ∧
      (f = .ended → ∃ (i : ℕ) (c : KeySetup), F.channels.setups[i]? = some c ∧
        c.party = .daemon ∧ c.psk = psk ∧ n ≤ max (start i) s.client.received.toNat) := by
  obtain ⟨reads, hreads, hcursor⟩ := h.dialed d hd
  obtain ⟨hget, hparty, hpsk, -⟩ := hok
  have hmem : d.setup ∈ F.channels.setups := hsub.subset (List.mem_of_getElem? hget)
  obtain ⟨hpeer, hnext⟩ := hreads.readFrame hideal hmem hread
  refine ⟨reads, hnext, hcursor, fun hf => ?_⟩
  subst hf
  obtain ⟨i, hi⟩ := List.mem_iff_getElem?.1 hpeer
  have hdaemon : d.setup.peer.party = .daemon := by
    rw [KeySetup.peer, hparty]
    rfl
  -- the record is the last one that the daemon has sealed there
  have hpre := hF.logged.isPrefix hi hnext.reads
  obtain ⟨l, hl, hnot, hn⟩ := hF.ended i _ hi hdaemon (howner i _ hi hdaemon hpsk)
    (hpre.subset (List.mem_append_right _ (List.mem_singleton_self _)))
  have hreads : reads = l := by
    rw [hl, List.prefix_concat_iff] at hpre
    rcases hpre with hall | hpart
    · exact List.append_cancel_right hall
    · exact absurd (hpart.subset (List.mem_append_right _ (List.mem_singleton_self _))) hnot
  rw [← hreads] at hn
  exact ⟨i, _, hi, hdaemon, hpsk, hn.trans (hcursor i hi)⟩

/-- The client handles a frame that it has read. -/
theorem Attacked.Reading.onFrame {d : Dialed Key} {reads : List Frame} {f : Frame}
    (hd : s.dialed = some d) (hnext : ReadsOf hkdf F.channels d.setup (reads ++ [f]) d.opener)
    (hcursor : ∀ i : ℕ, F.channels.setups[i]? = some d.setup.peer →
      cursorAfter (start i) reads ≤ max (start i) s.client.received.toNat)
    (hended : f = .ended ∨ s.returned = some .ended → ∃ (i : ℕ) (c : KeySetup),
      F.channels.setups[i]? = some c ∧ c.party = .daemon ∧ c.psk = psk ∧
      n ≤ max (start i) s.client.received.toNat) :
    (s.onFrame f).Reading hkdf psk n F start := by
  unfold Attacked.onFrame
  split
  · exact .undialed rfl fun _ => hended (.inl rfl)
  · obtain ⟨hmono, hcovers⟩ := clientHandle_covers s.client f
    split <;> rename_i hhandle <;> rw [hhandle] at hmono hcovers
    · refine ⟨fun d' hd' => ?_, fun hret => ?_⟩
      · dsimp only at hd'
        rw [hd] at hd'
        cases hd'
        refine ⟨_, hnext, fun i hi => ?_⟩
        have hold := hcursor i hi
        have hnew := hcovers rfl (cursorAfter (start i) reads)
        rw [cursorAfter_append]
        show f.endFrom (cursorAfter (start i) reads) ≤ _
        dsimp only at hnew hmono ⊢
        omega
      · obtain ⟨i, c, hi, hc, hpsk, hn⟩ := hended (.inr hret)
        dsimp only at hmono ⊢
        exact ⟨i, c, hi, hc, hpsk, by omega⟩
    · exact .undialed rfl fun h => by cases h

theorem Attacked.Reading.step (h : s.Reading hkdf psk n F start) (hs : s.Honest A hkdf psk)
    (hF : F.Writers A hkdf psk target n log start) (hideal : IdealTraffic A hkdf F.channels)
    (howner : F.OwnPsk psk target) (hsub : s.channels.setups <+: F.channels.setups)
    {e : AttackedEvent} (hst : attackedStep A hkdf psk s e = some s') :
    s'.Reading hkdf psk n F start := by
  cases e with
  | deliver bytes =>
    simp only [attackedStep] at hst
    split at hst
    · rename_i d hd
      split at hst
      · cases hst
        exact .undialed rfl h.ended
      · rename_i f r opener hread
        obtain ⟨reads, hnext, hcursor, hended⟩ :=
          h.read hd (hs.dialed d hd) hF hideal howner hsub hread
        split_ifs at hst with hg hhello
        · cases hst
          refine .onFrame rfl hnext hcursor fun hend => ?_
          rcases hend with hf | hret
          · exact hended hf
          · exact h.ended hret
        · cases hst
          refine ⟨fun d' hd' => ?_, h.ended⟩
          cases hd'
          refine ⟨_, hnext, fun i hi => ?_⟩
          rw [hhello, cursorAfter_append]
          exact hcursor i hi
        · cases hst
          exact .undialed rfl fun h => by cases h
    · cases hst
  | dial cn sn total =>
    simp only [attackedStep] at hst
    split_ifs at hst
    · cases hst
      exact ⟨h.dialed, (fun h => by cases h)⟩
    · split at hst
      · cases hst
      · obtain ⟨⟨ok, ch⟩, -, rfl⟩ := Option.map_eq_some_iff.1 hst
        refine ⟨fun d hd => ?_, h.ended⟩
        dsimp only at hd
        split_ifs at hd
        cases hd
        exact ⟨[], readsOf_new _ ⟨.client, psk, cn, sn⟩, fun i _ => Nat.le_max_left _ _⟩
  | send f =>
    simp only [attackedStep] at hst
    split at hst
    · rename_i d hd
      obtain ⟨⟨ok, ch⟩, -, rfl⟩ := Option.map_eq_some_iff.1 hst
      refine ⟨fun d' hd' => ?_, h.ended⟩
      dsimp only at hd'
      split_ifs at hd'
      cases hd'
      exact h.dialed d hd
    · cases hst
  | cut =>
    cases hst
    exact .undialed rfl h.ended
  | _ =>
    simp only [attackedStep] at hst
    all_goals
      repeat' split at hst
    all_goals
      first
      | cases hst; done
      | cases hst; exact ⟨h.dialed, h.ended⟩
      | obtain ⟨x, -, rfl⟩ := Option.map_eq_some_iff.1 hst
        exact ⟨h.dialed, h.ended⟩

/-- A client that has read `Ended` has committed the output up to byte `n`. -/
theorem le_received_of_ended
    (hs : (attackedSystem A hkdf psk).ReachableWith (EndsBehind psk target n) s)
    (hideal : IdealTraffic A hkdf s.channels) (howner : s.OwnPsk psk target)
    (hlen : ∀ k, (s.feeds k).stream.length < 2 ^ 64) (hret : s.returned = some .ended) :
    n ≤ s.client.received.toNat := by
  obtain ⟨log, start, hF⟩ := attacked_writers hs hlen hideal.fresh
  have hreading : (attackedSystem A hkdf psk).Reachable s ∧ s.Reading hkdf psk n s start := by
    refine @System.invariant_to _ _ (attackedSystem A hkdf psk)
      (fun s₁ => (attackedSystem A hkdf psk).Reachable s₁ ∧ s₁.Reading hkdf psk n s start)
      _ hs.reachable (fun s₁ hi => ⟨.init hi, ?_⟩)
      (fun s₁ e s₂ es ih hst hes => ⟨ih.1.step trivial hst, ?_⟩)
    · obtain ⟨-, -, -, -, hdialed, -, hret⟩ := hi
      refine .undialed hdialed fun h => ?_
      rw [hret] at h
      cases h
    · have hrun : (attackedSystem A hkdf psk).run s₁ (e :: es) = some s := by
        rw [System.run_cons, hst]
        exact hes
      obtain ⟨hfeeds, hsetups⟩ := attackedRun_grows hrun
      have hlen₁ : ∀ k, (s₁.feeds k).stream.length < 2 ^ 64 := fun k =>
        Nat.lt_of_le_of_lt (hfeeds k).length_le (hlen k)
      exact ih.2.step (attacked_honest ih.1 hlen₁) hF hideal howner hsetups hst
  obtain ⟨i, c, hi, hc, hpsk, hn⟩ := hreading.2.ended hret
  have hstart := hF.start i c hi hc hpsk
  omega

/-- **Nothing is lost at the end.**  Where every hello under the client's PSK arrives with an offset
that the client has reached, and the client's session is sent `Ended` only behind all its output, a
client that has returned with `Ended` has shown all of it, but for the announced gaps. -/
theorem ended_shows_all (A : Aead Key) (hkdf : List UInt8 → List UInt8 → List UInt8 → Key)
    (psk : Psk) (target : ℕ) (s : Attacked Key)
    (hs : (attackedSystem A hkdf psk).ReachableWith
      (EndsBehind psk target (s.feeds target).stream.length) s)
    (hideal : IdealTraffic A hkdf s.channels) (howner : s.OwnPsk psk target)
    (hlen : ∀ k, (s.feeds k).stream.length < 2 ^ 64) (hret : s.returned = some .ended) :
    s.client.received.toNat = (s.feeds target).stream.length ∧
      payload s.client.writer = without (s.feeds target).stream (gaps 0 s.client.writer) := by
  have hle := le_received_of_ended hs hideal howner hlen hret
  obtain ⟨hshows, -⟩ := attacked_safe hs.reachable hideal howner hlen
  have hall := Nat.le_antisymm hshows.le hle
  refine ⟨hall, ?_⟩
  have hpay := hshows.tells.payload_eq (by rw [hshows.span]; exact hshows.le)
  rw [hshows.span, hall, List.take_length] at hpay
  exact hpay

end Daemon

/-- The records of a connection on which the daemon sends three bytes and `Ended`. -/
def endedRecords : List (Encryption (List UInt8)) :=
  outputRecords ++ [⟨knownOffer.setup.key concatKdf, nonceFor dirServerToClient 2,
    Frame.ended.encode⟩]

/-- The session ends. -/
def endedSession : List AttackedEvent :=
  let cn := knownOffer.hello.clientNonce
  let sn := knownOffer.serverNonce
  [.append 0 [1, 2, 3], .accept 0 cn sn 0, .resume 0, .dial cn sn 3,
    .authenticate 0 ((endedRecords.take 1).flatMap recordBytes), .iterate 0, .signal 0 .ended] ++
    endedRecords.tail.map fun e => AttackedEvent.deliver (recordBytes e)

/-- The connection of the two runs below, and what the client makes of it. -/
structure EndOfKnown (es : List (Encryption (List UInt8))) (writer : List (Segment UInt8))
    (s : Attacked (List UInt8)) : Prop where
  setups : s.channels.setups = [knownOffer.setup, knownOffer.setup.peer]
  encryptions : s.channels.encryptions = es
  feeds : s.feeds = Function.update beforeAttack.feeds 0
    ⟨[1, 2, 3], (RingBuf.new 8).append [1, 2, 3]⟩
  sessionOf : s.sessionOf = Function.update beforeAttack.sessionOf 0 0
  returned : s.returned = some .ended
  writer : s.client.writer = writer

theorem EndOfKnown.stream {es : List (Encryption (List UInt8))} {writer : List (Segment UInt8)}
    {s : Attacked (List UInt8)} (h : EndOfKnown es writer s) (k : ℕ) :
    (s.feeds k).stream = if k = 0 then [1, 2, 3] else [] := by
  rw [h.feeds]
  by_cases hk : k = 0
  · rw [hk, Function.update_self]
    rfl
  · rw [Function.update_of_ne hk, if_neg hk]
    rfl

theorem EndOfKnown.length_lt {es : List (Encryption (List UInt8))}
    {writer : List (Segment UInt8)} {s : Attacked (List UInt8)} (h : EndOfKnown es writer s)
    (k : ℕ) : (s.feeds k).stream.length < 2 ^ 64 := by
  rw [h.stream]
  split_ifs <;> decide

theorem EndOfKnown.ownPsk {es : List (Encryption (List UInt8))} {writer : List (Segment UInt8)}
    {s : Attacked (List UInt8)} (h : EndOfKnown es writer s) : s.OwnPsk knownOffer.psk 0 := by
  intro i _ _ _ _
  rw [h.sessionOf]
  by_cases hi : i = 0
  · rw [hi, Function.update_self]
  · rw [Function.update_of_ne hi]
    rfl

theorem EndOfKnown.ideal {es : List (Encryption (List UInt8))} {writer : List (Segment UInt8)}
    {s : Attacked (List UInt8)} (h : EndOfKnown es writer s)
    (hs : (attackedSystem (recordsAead es) concatKdf knownOffer.psk).Reachable s) :
    IdealTraffic (recordsAead es) concatKdf s.channels where
  reachable := (attacked_honest hs h.length_lt).reachable
  fresh := by
    rw [h.setups]
    exact ⟨by decide, fun _ _ _ _ => concatKdf_injective⟩
  authentic _ _ _ _ _ hdec := by
    rw [h.encryptions]
    exact recordsAead_authentic hdec

theorem init_beforeAttack (A : Aead (List UInt8)) :
    (attackedSystem A concatKdf knownOffer.psk).init beforeAttack :=
  ⟨rfl, rfl, fun _ => ⟨8, rfl⟩, fun _ => rfl, rfl, rfl, rfl⟩

/-- The client has shown the three bytes. -/
theorem ended_shows_all_endedSession : ∃ s,
    (attackedSystem (recordsAead endedRecords) concatKdf knownOffer.psk).run beforeAttack
        endedSession = some s ∧
      s.client.writer = [.bytes [1, 2, 3]] ∧
      payload s.client.writer = without (s.feeds 0).stream (gaps 0 s.client.writer) := by
  obtain ⟨s, hrun, hend⟩ : ∃ s,
      (attackedSystem (recordsAead endedRecords) concatKdf knownOffer.psk).run beforeAttack
        endedSession = some s ∧ EndOfKnown endedRecords [.bytes [1, 2, 3]] s :=
    ⟨_, rfl, rfl, rfl, rfl, rfl, rfl, rfl⟩
  have hok : (attackedSystem (recordsAead endedRecords) concatKdf knownOffer.psk).RunMeets
      (EndsBehind knownOffer.psk 0 (s.feeds 0).stream.length) beforeAttack endedSession := by
    rw [hend.stream]
    refine ⟨trivial, fun _ => UInt64.le_refl _, trivial, trivial, trivial, trivial,
      fun _ _ v hv => ?_,
      trivial, trivial, trivial, trivial⟩
    cases hv
    decide
  have hs := (System.ReachableWith.init (init_beforeAttack _)).run_meets hok hrun
  exact ⟨s, hrun, hend.writer, (ended_shows_all (recordsAead endedRecords) concatKdf
    knownOffer.psk 0 s hs (hend.ideal hs.reachable) hend.ownPsk hend.length_lt hend.returned).2⟩

/-- The records of a connection on which the daemon sends `Ended` at once. -/
def hiddenRecords : List (Encryption (List UInt8)) :=
  outputRecords.take 2 ++ [⟨knownOffer.setup.key concatKdf, nonceFor dirServerToClient 1,
    Frame.ended.encode⟩]

/-- The offset of the client's hello is raised on the way to the daemon. -/
def raisedOffset : List AttackedEvent :=
  let cn := knownOffer.hello.clientNonce
  let sn := knownOffer.serverNonce
  [.append 0 [1, 2, 3], .accept 0 cn sn 3, .resume 0, .dial cn sn 3,
    .authenticate 0 ((hiddenRecords.take 1).flatMap recordBytes), .signal 0 .ended] ++
    hiddenRecords.tail.map fun e => AttackedEvent.deliver (recordBytes e)

/-- No key covers the offset: the client leaves without an error, and has shown nothing. -/
theorem raised_offset_hides_output : ∃ s,
    (attackedSystem (recordsAead hiddenRecords) concatKdf knownOffer.psk).run beforeAttack
        raisedOffset = some s ∧
      IdealTraffic (recordsAead hiddenRecords) concatKdf s.channels ∧
      s.returned = some .ended ∧ s.client.writer = [] ∧ (s.feeds 0).stream = [1, 2, 3] := by
  obtain ⟨s, hrun, hend⟩ : ∃ s,
      (attackedSystem (recordsAead hiddenRecords) concatKdf knownOffer.psk).run beforeAttack
        raisedOffset = some s ∧ EndOfKnown hiddenRecords [] s :=
    ⟨_, rfl, rfl, rfl, rfl, rfl, rfl, rfl⟩
  have hs := System.reachable_of_run raisedOffset (init_beforeAttack _) hrun
  exact ⟨s, hrun, hend.ideal hs, hend.returned, hend.writer, hend.stream 0⟩

end Thther
