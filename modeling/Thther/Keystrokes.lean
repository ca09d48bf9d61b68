import Mathlib.Data.List.Infix
import Thther.Lib.Blocks
import Thther.Typing

/-!
# Keystrokes under attack

What the PTYs of the daemon's sessions are written, against what was typed at the clients.

* `Heard`: what a connection has read is what its one client end has sealed;
* `PassedOn`: what it has passed on is what it has read;
* `keystrokes_delivered`: the PTYs, the connections and the keyboards of any run;
* `keystrokes_in_order`: one client whose connections do not overlap.
-/

namespace Thther

/-! ### What the daemon hears -/

section Heard

variable {Key : Type} [DecidableEq Key] {A : Aead Key}
  {hkdf : List UInt8 → List UInt8 → List UInt8 → Key} {F ch ch' : Channels Key}
  {heard : ℕ → List Frame} {served : ℕ → Option (Hearing Key)}

variable (hkdf) in
/-- What each connection of the daemon has read is the first part of what its other end seals in
the whole run. -/
structure Heard (F ch : Channels Key) (heard : ℕ → List Frame)
    (served : ℕ → Option (Hearing Key)) : Prop where
  served : ∀ i v, served i = some v → ∃ c, ch.setups[i]? = some c ∧ c.party = .daemon ∧
    ReadsOf hkdf F c (heard i) v.opener ∧ (v.greeted = false → heard i = [])
  heard : ∀ i, heard i ≠ [] → ∃ c, ch.setups[i]? = some c ∧ c.party = .daemon ∧
    c.peer ∈ F.setups ∧ (heard i).map Except.ok <+: (F.sealedBy hkdf c.peer).map Frame.decode

/-- The setups that were there stay there. -/
theorem Heard.mono (h : Heard hkdf F ch heard served) (hsub : ch.setups <+: ch'.setups) :
    Heard hkdf F ch' heard served := by
  have hkeep : ∀ {i : ℕ} {c}, ch.setups[i]? = some c → ch'.setups[i]? = some c := by
    intro i c hi
    obtain ⟨t, ht⟩ := hsub
    rw [← ht, List.getElem?_append_left (List.getElem?_eq_some_iff.1 hi).1]
    exact hi
  refine ⟨fun i v hv => ?_, fun i hi => ?_⟩
  · obtain ⟨c, hc, hrest⟩ := h.served i v hv
    exact ⟨c, hkeep hc, hrest⟩
  · obtain ⟨c, hc, hrest⟩ := h.heard i hi
    exact ⟨c, hkeep hc, hrest⟩

omit [DecidableEq Key] in
theorem heard_of_served {o : Option (Hearing Key)} {i : ℕ}
    {P : ℕ → Hearing Key → Prop} (h : ∀ j v, served j = some v → P j v)
    (hi : ∀ v, o = some v → P i v) : ∀ j v, Function.update served i o j = some v → P j v := by
  intro j v hj
  by_cases hji : j = i
  · subst hji
    rw [Function.update_self] at hj
    exact hi v hj
  · rw [Function.update_of_ne hji] at hj
    exact h j v hj

/-- A connection is dropped, or goes on as it was. -/
theorem Heard.keep (h : Heard hkdf F ch heard served) {i : ℕ} {o : Option (Hearing Key)}
    (ho : ∀ v, o = some v → served i = some v) :
    Heard hkdf F ch heard (Function.update served i o) :=
  ⟨heard_of_served h.served fun v hv => h.served i v (ho v hv), h.heard⟩

/-- A new connection. -/
theorem Heard.accept (h : Heard hkdf F ch heard served) {c : KeySetup} (hc : c.party = .daemon) :
    Heard hkdf F (ch.add hkdf c) heard (Function.update served ch.ends.length
      (some ⟨Opener.new (c.key hkdf) dirClientToServer, false⟩)) := by
  have hsub : ch.setups <+: (ch.add hkdf c).setups := by
    rw [Channels.setups, Channels.setups, Channels.add, List.map_append]
    exact List.prefix_append _ _
  have hnil : heard ch.ends.length = [] := by
    by_contra hne
    obtain ⟨d, hd, -⟩ := h.heard _ hne
    exact absurd (lt_of_setups hd) (Nat.lt_irrefl _)
  have hmono := h.mono hsub
  refine ⟨heard_of_served hmono.served fun v hv => ?_, hmono.heard⟩
  cases hv
  refine ⟨c, setups_add_self ch c, hc, ?_, fun _ => hnil⟩
  have hdir : dirClientToServer = c.peer.party.dir := by
    rw [KeySetup.peer, hc]
    rfl
  rw [hnil, hdir]
  exact readsOf_new F c

/-- A connection reads a frame. -/
theorem Heard.read (h : Heard hkdf F ch heard served) (hF : IdealTraffic A hkdf F)
    (hsub : ch.setups <+: F.setups) {i : ℕ} {v : Hearing Key} (hv : served i = some v)
    {bytes r : List UInt8} {f : Frame} {opener : Opener Key}
    (hread : readFrame A bytes v.opener = (.ok f, r, opener)) {o : Option (Hearing Key)}
    (ho : ∀ w, o = some w → w = ⟨opener, true⟩) :
    Heard hkdf F ch (Function.update heard i (heard i ++ [f])) (Function.update served i o) := by
  obtain ⟨c, hc, hparty, hreads, -⟩ := h.served i v hv
  obtain ⟨hpeer, hnext⟩ := hreads.readFrame hF (hsub.subset (List.mem_of_getElem? hc)) hread
  have hother : ∀ j, j ≠ i → Function.update heard i (heard i ++ [f]) j = heard j :=
    fun j hj => Function.update_of_ne hj _ _
  refine ⟨fun j w hj => ?_, fun j hj => ?_⟩
  · by_cases hji : j = i
    · subst hji
      rw [Function.update_self] at hj ⊢
      rw [ho w hj]
      exact ⟨c, hc, hparty, hnext, nofun⟩
    · rw [Function.update_of_ne hji] at hj
      rw [hother j hji]
      exact h.served j w hj
  · by_cases hji : j = i
    · subst hji
      rw [Function.update_self]
      exact ⟨c, hc, hparty, hpeer, hnext.reads⟩
    · rw [hother j hji] at hj ⊢
      exact h.heard j hj

end Heard

/-! ### What reaches the PTY -/

section PassedOn

/-- The messages that came on connection `i`. -/
def inputsOf (msgs : List (ℕ × PtyMsg)) (i : ℕ) : List PtyMsg :=
  msgs.filterMap fun m => if m.1 = i then some m.2 else none

theorem inputsOf_append (l m : List (ℕ × PtyMsg)) (i : ℕ) :
    inputsOf (l ++ m) i = inputsOf l i ++ inputsOf m i := List.filterMap_append

theorem inputsOf_tagged (i j : ℕ) (o : Option PtyMsg) :
    inputsOf (o.toList.map fun m => (i, m)) j = if i = j then o.toList else [] := by
  cases o with
  | none => simp [inputsOf]
  | some m =>
    by_cases h : i = j
    · simp [inputsOf, h]
    · simp [inputsOf, h]

/-- More messages are sent to the PTY of session `l`. -/
theorem threads_send {toPty : ℕ → List (ℕ × PtyMsg)} {pty : ℕ → PtyWriter}
    (h : ∀ k, ∃ size, (pty k).Ok size ((toPty k).map Prod.snd)) (l : ℕ)
    (msgs : List (ℕ × PtyMsg)) : ∀ k, ∃ size,
      (pty k).Ok size ((Function.update toPty l (toPty l ++ msgs) k).map Prod.snd) := by
  intro k
  obtain ⟨size, hok⟩ := h k
  refine ⟨size, ?_⟩
  by_cases hk : k = l
  · subst hk
    rw [Function.update_self, List.map_append]
    exact hok.send _
  · rw [Function.update_of_ne hk]
    exact hok

/-- The writer thread of session `l` takes a message. -/
theorem threads_write {toPty : ℕ → List (ℕ × PtyMsg)} {pty : ℕ → PtyWriter}
    (h : ∀ k, ∃ size, (pty k).Ok size ((toPty k).map Prod.snd)) {l : ℕ} {call : PtyCall}
    {w : PtyWriter} (hw : ptyWriterStep ((toPty l).map Prod.snd) (pty l) call = some w) :
    ∀ k, ∃ size, (Function.update pty l w k).Ok size ((toPty k).map Prod.snd) := by
  intro k
  obtain ⟨size, hok⟩ := h k
  refine ⟨size, ?_⟩
  by_cases hk : k = l
  · subst hk
    rw [Function.update_self]
    exact hok.step hw
  · rw [Function.update_of_ne hk]
    exact hok

/-- What each connection has passed on is what it has read, and goes to its own session; and the
writer threads do their work. -/
structure PassedOn (sessionOf : ℕ → ℕ) (heard : ℕ → List Frame) (toPty : ℕ → List (ℕ × PtyMsg))
    (pty : ℕ → PtyWriter) : Prop where
  inputs : ∀ k i, inputsOf (toPty k) i =
    if sessionOf i = k then (heard i).filterMap Frame.toPty else []
  threads : ∀ k, ∃ size, (pty k).Ok size ((toPty k).map Prod.snd)

variable {sessionOf : ℕ → ℕ} {heard : ℕ → List Frame} {toPty : ℕ → List (ℕ × PtyMsg)}
  {pty : ℕ → PtyWriter}

/-- A connection that has read nothing is given its session. -/
theorem PassedOn.accept (h : PassedOn sessionOf heard toPty pty) {i : ℕ} (hi : heard i = [])
    (k : ℕ) : PassedOn (Function.update sessionOf i k) heard toPty pty := by
  refine ⟨fun l j => ?_, h.threads⟩
  by_cases hj : j = i
  · subst hj
    have hold := h.inputs l j
    rw [hi] at hold ⊢
    simpa using hold
  · rw [Function.update_of_ne hj]
    exact h.inputs l j

/-- A frame is read and passed on. -/
theorem PassedOn.read (h : PassedOn sessionOf heard toPty pty) (i : ℕ) (f : Frame) :
    PassedOn sessionOf (Function.update heard i (heard i ++ [f]))
      (Function.update toPty (sessionOf i)
        (toPty (sessionOf i) ++ f.toPty.toList.map fun m => (i, m))) pty := by
  have hfilter : [f].filterMap Frame.toPty = f.toPty.toList := by
    cases hf : f.toPty with
    | none => simp [hf]
    | some m => simp [hf]
  refine ⟨fun k j => ?_, fun k => ?_⟩
  · have hold := h.inputs k j
    by_cases hk : k = sessionOf i
    · subst hk
      rw [Function.update_self, inputsOf_append, inputsOf_tagged, hold]
      by_cases hj : j = i
      · subst hj
        rw [Function.update_self, if_pos rfl, if_pos rfl, if_pos rfl, List.filterMap_append,
          hfilter]
      · rw [Function.update_of_ne hj, if_neg (Ne.symm hj), List.append_nil]
    · rw [Function.update_of_ne hk, hold]
      by_cases hj : j = i
      · subst hj
        rw [if_neg (Ne.symm hk), if_neg (Ne.symm hk)]
      · rw [Function.update_of_ne hj]
  · exact threads_send h.threads _ _ k

/-- A writer thread takes a message. -/
theorem PassedOn.write (h : PassedOn sessionOf heard toPty pty) {k : ℕ} {call : PtyCall}
    {w : PtyWriter} (hw : ptyWriterStep ((toPty k).map Prod.snd) (pty k) call = some w) :
    PassedOn sessionOf heard toPty (Function.update pty k w) :=
  ⟨h.inputs, threads_write h.threads hw⟩

end PassedOn

/-! ### All runs -/

section Run

variable {Key : Type} {A : Aead Key} {hkdf : List UInt8 → List UInt8 → List UInt8 → Key}
  {s s' : Typing Key} {e : TypingEvent}

theorem Wrote.run {ch ch' : Channels Key} {log log' : ℕ → List Frame} {i : ℕ} {f : Frame}
    {ok : Bool} (h : Wrote A hkdf ch log i f ok ch' log') :
    (channelSystem A hkdf).run ch [.sealRecord i f.encode] = some ch' := by
  have hw := h.write
  unfold Channels.write at hw
  cases hi : ch.ends[i]? with
  | none =>
    rw [hi] at hw
    cases hw
  | some c =>
    rw [hi] at hw
    obtain ⟨ch₁, hstep, heq⟩ := Option.map_eq_some_iff.1 hw
    cases heq
    exact (System.run_singleton _ _).trans hstep

theorem run_of_channelStep {ch ch' : Channels Key} {e : ChannelEvent}
    (h : channelStep A hkdf ch e = some ch') : (channelSystem A hkdf).run ch [e] = some ch' :=
  (System.run_singleton _ _).trans h

/-- Every step is a run of the channels. -/
theorem typingStep_channels (h : typingStep A hkdf s e = some s') :
    ∃ es, (channelSystem A hkdf).run s.channels es = some s'.channels := by
  have hsame : ∃ es, (channelSystem A hkdf).run s.channels es = some s.channels := ⟨[], rfl⟩
  cases e with
  | type p chunk =>
    simp only [typingStep] at h
    split_ifs at h
    cases h
    exact hsame
  | dial p cn sn =>
    simp only [typingStep] at h
    split_ifs at h
    split at h
    · cases h
    · rename_i ch hch
      obtain ⟨⟨ok, s₁⟩, hw, rfl⟩ := Option.map_eq_some_iff.1 h
      obtain ⟨ch', log, hwrote, rfl⟩ := Typing.write_eq_some hw
      exact ⟨_, System.run_trans (run_of_channelStep hch) hwrote.run⟩
  | greet p bytes =>
    simp only [typingStep] at h
    split at h
    · split_ifs at h
      split at h <;> cases h <;> exact hsame
    · cases h
  | stdin p =>
    simp only [typingStep] at h
    split at h
    · split_ifs at h
      split at h
      · cases h
        exact hsame
      · split_ifs at h
        · obtain ⟨⟨ok, s₁⟩, hw, rfl⟩ := Option.map_eq_some_iff.1 h
          obtain ⟨ch', log, hwrote, rfl⟩ := Typing.write_eq_some hw
          exact ⟨_, hwrote.run⟩
        · cases h
          exact hsame
    · cases h
  | signal p f =>
    simp only [typingStep] at h
    split at h
    · split_ifs at h
      obtain ⟨⟨ok, s₁⟩, hw, rfl⟩ := Option.map_eq_some_iff.1 h
      obtain ⟨ch', log, hwrote, rfl⟩ := Typing.write_eq_some hw
      exact ⟨_, hwrote.run⟩
    · cases h
  | cut p =>
    cases h
    exact hsame
  | quit p =>
    cases h
    exact hsame
  | rotate k psk =>
    obtain ⟨ch, hch, rfl⟩ := Option.map_eq_some_iff.1 (by simpa only [typingStep] using h)
    exact ⟨_, run_of_channelStep hch⟩
  | accept k cn sn =>
    obtain ⟨ch, hch, rfl⟩ := Option.map_eq_some_iff.1 (by simpa only [typingStep] using h)
    exact ⟨_, run_of_channelStep hch⟩
  | authenticate i bytes =>
    simp only [typingStep] at h
    split at h
    · split at h
      · obtain ⟨⟨ok, s₁⟩, hw, rfl⟩ := Option.map_eq_some_iff.1 h
        obtain ⟨ch', log, hwrote, rfl⟩ := Typing.write_eq_some hw
        exact ⟨_, hwrote.run⟩
      · cases h
        exact hsame
    · cases h
  | recv i bytes =>
    simp only [typingStep] at h
    split at h
    · split at h <;> cases h <;> exact hsame
    · cases h
  | answer i f =>
    simp only [typingStep] at h
    split at h
    · obtain ⟨⟨ok, s₁⟩, hw, rfl⟩ := Option.map_eq_some_iff.1 h
      obtain ⟨ch', log, hwrote, rfl⟩ := Typing.write_eq_some hw
      exact ⟨_, hwrote.run⟩
    · cases h
  | drop i =>
    cases h
    exact hsame
  | pty k call =>
    obtain ⟨w, -, rfl⟩ := Option.map_eq_some_iff.1 (by simpa only [typingStep] using h)
    exact hsame

theorem typingRun_channels {es : List TypingEvent}
    (h : (typingSystem A hkdf).run s es = some s') :
    ∃ es, (channelSystem A hkdf).run s.channels es = some s'.channels := by
  induction es generalizing s with
  | nil =>
    cases h
    exact ⟨[], rfl⟩
  | cons e es ih =>
    rw [System.run_cons, Option.bind_eq_some_iff] at h
    obtain ⟨s₁, h₁, h₂⟩ := h
    obtain ⟨cs, hcs⟩ := typingStep_channels h₁
    obtain ⟨ds, hds⟩ := ih h₂
    exact ⟨cs ++ ds, System.run_trans hcs hds⟩

variable [DecidableEq Key] {F : Channels Key}

variable (A hkdf) in
/-- The invariant, on the way to the channels `F`. -/
structure Typing.Inv (F : Channels Key) (s : Typing Key) : Prop where
  logged : Logged A hkdf s.channels s.log
  typed : SendsTyped s.channels s.log s.owner s.typists
  heard : Heard hkdf F s.channels s.heard s.served
  passed : PassedOn s.sessionOf s.heard s.toPty s.pty

/-- Client `p` goes on with the same connection or none, having sent nothing. -/
theorem Typing.Inv.setTypist (h : s.Inv A hkdf F) {p : ℕ} {y : Typist Key}
    (hpsk : y.psk = (s.typists p).psk)
    (hconn : ∀ d, y.conn = some d → ∃ d', (s.typists p).conn = some d' ∧ d'.index = d.index)
    (htaken : y.taken ≤ y.typed.length)
    (hsent : ∀ u : List UInt8, (u ++ Escape.held detachPrefix (s.typists p).prefixPending).Sublist
        ((s.typists p).typed.take (s.typists p).taken).flatten →
      (u ++ Escape.held detachPrefix y.prefixPending).Sublist
        (y.typed.take y.taken).flatten) : (s.setTypist p y).Inv A hkdf F := by
  refine ⟨h.logged, h.typed.set hpsk (fun d hd => ?_) htaken (hsent _ (h.typed.sent p)), h.heard,
    h.passed⟩
  obtain ⟨d', hd', hindex⟩ := hconn d hd
  rw [← hindex]
  exact h.typed.conn p d' hd'

/-- An end writes a frame that is no input, or the daemon writes. -/
theorem Typing.Inv.wrote (h : s.Inv A hkdf F) (hf : Fresh hkdf s.channels.setups) {i : ℕ}
    {f : Frame} {ok : Bool} {ch : Channels Key} {log : ℕ → List Frame}
    (hw : Wrote A hkdf s.channels s.log i f ok ch log)
    (hdata : dataPayload [f] = [] ∨ s.owner i = none) :
    Typing.Inv A hkdf F { s with channels := ch, log } := by
  obtain ⟨hsetups, -⟩ := hw.setups h.logged.reachable
  refine ⟨h.logged.wrote hf hw, h.typed.wrote h.logged.reachable hw hdata, ?_, h.passed⟩
  exact h.heard.mono (by rw [hsetups])

/-- The connections of the daemon have no client. -/
theorem Typing.Inv.owner_eq_none (h : s.Inv A hkdf F) {i : ℕ} {v : Hearing Key}
    (hv : s.served i = some v) : s.owner i = none := by
  obtain ⟨c, hc, hparty, -⟩ := h.heard.served i v hv
  cases ho : s.owner i with
  | none => rfl
  | some p =>
    obtain ⟨d, hd, hclient, -⟩ := h.typed.own i p ho
    rw [hc, Option.some.injEq] at hd
    rw [← hd, hparty] at hclient
    cases hclient

theorem Typing.Inv.step (h : s.Inv A hkdf F) (hF : IdealTraffic A hkdf F)
    (hs : typingStep A hkdf s e = some s') (hsub : s'.channels.setups <+: F.setups) :
    s'.Inv A hkdf F := by
  have hfresh' : Fresh hkdf s'.channels.setups := by
    obtain ⟨t, ht⟩ := hsub
    have := hF.fresh
    rw [← ht] at this
    exact this.of_append
  obtain ⟨cs, hcs⟩ := typingStep_channels hs
  have hfresh : Fresh hkdf s.channels.setups := fresh_of_run hcs hfresh'
  have hsub₀ : s.channels.setups <+: F.setups := (setups_of_run hcs).trans hsub
  cases e with
  | type p chunk =>
    simp only [typingStep] at hs
    split_ifs at hs
    cases hs
    have htaken := h.typed.taken p
    refine h.setTypist rfl (fun d hd => ⟨d, hd, rfl⟩) ?_ fun u hu => ?_
    · dsimp only
      rw [List.length_append]
      omega
    · dsimp only
      rw [List.take_append_of_le_length htaken]
      exact hu
  | dial p cn sn =>
    simp only [typingStep] at hs
    split_ifs at hs with hidle
    rw [not_or, Option.not_isSome_iff_eq_none] at hidle
    split at hs
    · cases hs
    · rename_i ch hch
      have hadd : ch = s.channels.add hkdf ⟨.client, (s.typists p).psk, cn, sn⟩ :=
        (Option.some.inj hch).symm
      subst hadd
      obtain ⟨⟨ok, s₁⟩, hw, rfl⟩ := Option.map_eq_some_iff.1 hs
      obtain ⟨ch, log, hwrote, rfl⟩ := Typing.write_eq_some hw
      have hsetups := (hwrote.setups (Channels.reachable_step h.logged.reachable hch)).1
      have hfresh₁ : Fresh hkdf (s.channels.add hkdf ⟨.client, (s.typists p).psk, cn, sn⟩).setups :=
        fresh_of_run hwrote.run hfresh'
      have hnil := h.logged.unused _ (Nat.le_refl _)
      have h₁ : Typing.Inv A hkdf F { s with
          channels := s.channels.add hkdf ⟨.client, (s.typists p).psk, cn, sn⟩
          owner := Function.update s.owner s.channels.ends.length (some p) } :=
        ⟨h.logged.add hch hfresh₁, h.typed.add_client hnil hidle.1 cn sn,
          h.heard.mono (channelStep_setups hch), h.passed⟩
      have h₂ := h₁.wrote hfresh₁ hwrote (.inl rfl)
      have hlen : ch.ends.length = s.channels.ends.length + 1 := by
        rw [(hwrote.setups h₁.logged.reachable).2]
        exact length_add _ _
      refine ⟨h₂.logged, h₂.typed.set rfl (fun d hd => ?_) (h.typed.taken p) (h₂.typed.sent p),
        h₂.heard, h₂.passed⟩
      dsimp only at hd ⊢
      split_ifs at hd
      cases hd
      rw [hlen, connsOf_succ, Function.update_self, if_pos rfl]
      exact ⟨_, rfl⟩
  | greet p bytes =>
    simp only [typingStep] at hs
    split at hs
    · rename_i d hd
      split_ifs at hs
      have htaken := h.typed.taken p
      split at hs
      · cases hs
        refine h.setTypist rfl (fun d' hd' => ?_) htaken fun u hu => ?_
        · cases hd'
          exact ⟨d, hd, rfl⟩
        · exact (((List.Sublist.refl u).append (List.nil_sublist _)).trans hu)
      · cases hs
        exact h.setTypist rfl nofun htaken fun u hu => hu
      · cases hs
        exact h.setTypist rfl nofun htaken fun u hu => hu
    · cases hs
  | stdin p =>
    simp only [typingStep] at hs
    split at hs
    · rename_i d bytes hd hchunk
      split_ifs at hs with hg
      have hlt := (List.getElem?_eq_some_iff.1 hchunk).1
      have hread : ((s.typists p).typed.take ((s.typists p).taken + 1)).flatten =
          ((s.typists p).typed.take (s.typists p).taken).flatten ++ bytes := by
        rw [List.take_add_one, hchunk, List.flatten_append]
        simp
      split at hs
      · cases hs
        refine h.setTypist rfl nofun hlt fun u hu => ?_
        dsimp only
        rw [hread]
        exact hu.trans (List.sublist_append_left _ _)
      · rename_i out pending hscan
        split_ifs at hs with hout
        · obtain ⟨⟨ok, s₁⟩, hw, rfl⟩ := Option.map_eq_some_iff.1 hs
          obtain ⟨ch, log, hwrote, rfl⟩ := Typing.write_eq_some hw
          have hkeep : s.channels.setups <+: ch.setups := by
            rw [(hwrote.setups h.logged.reachable).1]
          refine ⟨h.logged.wrote hfresh hwrote,
            h.typed.stdin h.logged.reachable hd hchunk hscan hwrote ?_, h.heard.mono hkeep,
            h.passed⟩
          cases ok with
          | true => exact .inl rfl
          | false => exact .inr rfl
        · cases hs
          refine h.setTypist rfl (fun d' hd' => ⟨d', hd', rfl⟩) hlt fun u hu => ?_
          rw [not_not] at hout
          have hheld := scanStdin_done hscan
          rw [hout, List.nil_append] at hheld
          dsimp only
          rw [hread, hheld, ← List.append_assoc]
          exact hu.append (List.Sublist.refl _)
    · cases hs
  | signal p f =>
    simp only [typingStep] at hs
    split at hs
    · rename_i d hd
      split_ifs at hs with hg
      obtain ⟨⟨ok, s₁⟩, hw, rfl⟩ := Option.map_eq_some_iff.1 hs
      obtain ⟨ch, log, hwrote, rfl⟩ := Typing.write_eq_some hw
      have hdata : dataPayload [f] = [] := by
        cases f <;> first | rfl | exact absurd hg.2 (by simp [Frame.isSignal])
      refine (h.wrote hfresh hwrote (.inl hdata)).setTypist rfl (fun d' hd' => ?_)
        (h.typed.taken p) fun u hu => hu
      split_ifs at hd'
      exact ⟨d, hd, by rw [Option.some.inj hd']⟩
    · cases hs
  | cut p =>
    cases hs
    exact h.setTypist rfl nofun (h.typed.taken p) fun u hu => hu
  | quit p =>
    cases hs
    exact h.setTypist rfl nofun (h.typed.taken p) fun u hu => hu
  | rotate k psk =>
    obtain ⟨ch, hch, rfl⟩ := Option.map_eq_some_iff.1 (by simpa only [typingStep] using hs)
    have hreach := Channels.reachable_step h.logged.reachable hch
    cases hch
    exact ⟨⟨hreach, h.logged.sealed_, h.logged.unused⟩,
      ⟨h.typed.own, h.typed.owned, h.typed.conn, h.typed.taken, h.typed.sent⟩,
      ⟨h.heard.served, h.heard.heard⟩, h.passed⟩
  | accept k cn sn =>
    obtain ⟨ch, hch, rfl⟩ := Option.map_eq_some_iff.1 (by simpa only [typingStep] using hs)
    have hadd : ch = s.channels.add hkdf ⟨.daemon, s.channels.psks k, cn, sn⟩ :=
      (Option.some.inj hch).symm
    subst hadd
    have hnil : s.heard s.channels.ends.length = [] := by
      by_contra hne
      obtain ⟨d, hd, -⟩ := h.heard.heard _ hne
      exact absurd (lt_of_setups hd) (Nat.lt_irrefl _)
    exact ⟨h.logged.add hch hfresh', h.typed.add_daemon (h.logged.unused _ (Nat.le_refl _)) rfl,
      h.heard.accept rfl, h.passed.accept hnil k⟩
  | authenticate i bytes =>
    simp only [typingStep] at hs
    split at hs
    · rename_i o hv
      obtain ⟨-, -, -, -, hnil⟩ := h.heard.served i _ hv
      split at hs
      · rename_i r o' hread
        obtain ⟨⟨ok, s₁⟩, hw, rfl⟩ := Option.map_eq_some_iff.1 hs
        obtain ⟨ch, log, hwrote, rfl⟩ := Typing.write_eq_some hw
        have hhello : [Frame.hello] = s.heard i ++ [.hello] := by rw [hnil rfl, List.nil_append]
        have hheard := h.heard.read hF hsub₀ hv hread
          (o := if ok then some ⟨o', true⟩ else none) fun w hw' => by
            split_ifs at hw'
            exact (Option.some.inj hw').symm
        have hdelivered := h.passed.read i .hello
        rw [← hhello] at hheard hdelivered
        simp only [Frame.toPty, Option.toList_none, List.map_nil, List.append_nil,
          Function.update_eq_self] at hdelivered
        have h₁ : Typing.Inv A hkdf F { s with
            heard := Function.update s.heard i [.hello]
            served := Function.update s.served i (if ok then some ⟨o', true⟩ else none) } :=
          ⟨h.logged, h.typed, hheard, hdelivered⟩
        exact h₁.wrote hfresh hwrote (.inl rfl)
      · cases hs
        exact ⟨h.logged, h.typed, h.heard.keep nofun, h.passed⟩
    · cases hs
  | recv i bytes =>
    simp only [typingStep] at hs
    split at hs
    · rename_i o hv
      split at hs
      · rename_i f r o' hread
        cases hs
        refine ⟨h.logged, h.typed, ?_, h.passed.read i f⟩
        exact h.heard.read hF hsub₀ hv hread fun w hw => (Option.some.inj hw).symm
      · cases hs
        exact ⟨h.logged, h.typed, h.heard.keep nofun, h.passed⟩
    · cases hs
  | answer i f =>
    simp only [typingStep] at hs
    split at hs
    · rename_i o hv
      obtain ⟨⟨ok, s₁⟩, hw, rfl⟩ := Option.map_eq_some_iff.1 hs
      obtain ⟨ch, log, hwrote, rfl⟩ := Typing.write_eq_some hw
      have h₁ := h.wrote hfresh hwrote (.inr (h.owner_eq_none hv))
      refine ⟨h₁.logged, h₁.typed, h₁.heard.keep fun v hv' => ?_, h₁.passed⟩
      split_ifs at hv'
      rw [← hv']
      exact hv
    · cases hs
  | drop i =>
    cases hs
    exact ⟨h.logged, h.typed, h.heard.keep nofun, h.passed⟩
  | pty k call =>
    obtain ⟨w, hw, rfl⟩ := Option.map_eq_some_iff.1 (by simpa only [typingStep] using hs)
    exact ⟨h.logged, h.typed, h.heard, h.passed.write hw⟩

theorem typing_inv (hs : (typingSystem A hkdf).Reachable s)
    (hideal : IdealTraffic A hkdf s.channels) : s.Inv A hkdf s.channels := by
  refine @System.invariant_to _ _ (typingSystem A hkdf) (Typing.Inv A hkdf s.channels) _ hs
    (fun s₁ hi => ?_) fun s₁ e s₂ es ih hst hes => ?_
  · obtain ⟨hends, henc, hlog, hheard, howner, htypists, hserved, htoPty, hpty⟩ := hi
    have hnone : ∀ j : ℕ, s₁.channels.setups[j]? = none := fun j => by
      rw [Channels.setups, hends]
      rfl
    refine ⟨⟨.init ⟨hends, henc⟩, fun j c hj => ?_, fun j _ => hlog j⟩,
      ⟨fun j p hj => ?_, fun j c hj _ => ?_, fun p d hd => ?_, fun p => ?_, fun p => ?_⟩,
      ⟨fun i v hv => ?_, fun i hi => absurd (hheard i) hi⟩, ⟨fun k i => ?_, fun k => ?_⟩⟩
    · rw [hnone] at hj
      cases hj
    · rw [howner] at hj
      cases hj
    · rw [hnone] at hj
      cases hj
    · rw [(htypists p).2.2.1] at hd
      cases hd
    · rw [(htypists p).2.1]
      exact Nat.zero_le _
    · rw [hends, (htypists p).2.2.2]
      exact List.nil_sublist _
    · rw [hserved] at hv
      cases hv
    · rw [htoPty, hheard]
      simp [inputsOf]
    · obtain ⟨size, hsize⟩ := hpty k
      rw [hsize, htoPty]
      exact ⟨size, PtyWriter.ok_new size⟩
  · obtain ⟨cs, hcs⟩ := typingRun_channels hes
    exact ih.step hideal hst (setups_of_run hcs)

/-- Connection `i` of the daemon and end `j` of a client are the two ends of one connection. -/
def Typing.Pairs (s : Typing Key) (i j : ℕ) : Prop :=
  ∃ c, c.party = .daemon ∧ s.channels.setups[i]? = some c ∧ s.channels.setups[j]? = some c.peer

omit [DecidableEq Key] in
theorem Typing.pairs_iff (hf : Fresh hkdf s.channels.setups) {i i' j j' : ℕ} (h : s.Pairs i j)
    (h' : s.Pairs i' j') : i = i' ↔ j = j' := by
  obtain ⟨c, hc, hi, hj⟩ := h
  obtain ⟨c', hc', hi', hj'⟩ := h'
  constructor
  · rintro rfl
    rw [hi, Option.some.injEq] at hi'
    rw [← hi'] at hj'
    exact hf.index_eq hj hj' rfl rfl
  · rintro rfl
    rw [hj, Option.some.injEq] at hj'
    have hkey : c.key hkdf = c'.key hkdf := by
      rw [← KeySetup.key_peer, hj', KeySetup.key_peer]
    exact hf.index_eq hi hi' (hc.trans hc'.symm) hkey

/-- What a connection has read is what the client at its other end has sealed, from the start. -/
theorem Typing.Inv.heard_isPrefix (h : s.Inv A hkdf s.channels) {i : ℕ} (hi : s.heard i ≠ []) :
    ∃ j p c, s.Pairs i j ∧ s.owner j = some p ∧ s.channels.setups[i]? = some c ∧
      c.psk = (s.typists p).psk ∧ s.heard i <+: s.log j := by
  obtain ⟨c, hc, hparty, hpeer, hreads⟩ := h.heard.heard i hi
  obtain ⟨j, hj⟩ := List.mem_iff_getElem?.1 hpeer
  have hclient : c.peer.party = .client := by
    rw [KeySetup.peer, hparty]
    rfl
  obtain ⟨p, hp⟩ := h.typed.owned j _ hj hclient
  obtain ⟨c', hc', -, hpsk⟩ := h.typed.own j p hp
  rw [hj, Option.some.injEq] at hc'
  rw [← hc'] at hpsk
  exact ⟨j, p, c, ⟨c, hparty, hc, hj⟩, hp, hc, hpsk, h.logged.isPrefix hj hreads⟩

theorem Typing.Inv.sent_sublist (h : s.Inv A hkdf F) (p : ℕ) :
    (sentOf s.owner s.log s.channels.ends.length p).Sublist (s.typists p).typed.flatten := by
  have hsplit : (s.typists p).typed.flatten =
      ((s.typists p).typed.take (s.typists p).taken).flatten ++
        ((s.typists p).typed.drop (s.typists p).taken).flatten := by
    rw [← List.flatten_append, List.take_append_drop]
  rw [hsplit]
  exact (List.sublist_append_left _ _).trans
    ((h.typed.sent p).trans (List.sublist_append_left _ _))

/-- **Keystrokes under attack.**  A PTY is written what its session's connections have passed on,
in that order.  Each connection that has passed anything on has one client end of its own, under
the same PSK, and has passed on the first part of what that client has sent on it.  And all a
client has sent, over all its connections, is a part of what was typed there: in order, and no
keystroke twice. -/
theorem keystrokes_delivered (A : Aead Key) (hkdf : List UInt8 → List UInt8 → List UInt8 → Key)
    (s : Typing Key) (hs : (typingSystem A hkdf).Reachable s)
    (hideal : IdealTraffic A hkdf s.channels) :
    (∀ k, (s.pty k).written <+: inputBytes ((s.toPty k).map Prod.snd)) ∧
      (∀ k i, inputsOf (s.toPty k) i ≠ [] → s.sessionOf i = k ∧
        ∃ j p c, s.Pairs i j ∧ s.owner j = some p ∧ s.channels.setups[i]? = some c ∧
          c.psk = (s.typists p).psk ∧
          inputsOf (s.toPty k) i <+: (s.log j).filterMap Frame.toPty) ∧
      (∀ i i' j j', s.Pairs i j → s.Pairs i' j' → (i = i' ↔ j = j')) ∧
      ∀ p, (sentOf s.owner s.log s.channels.ends.length p).Sublist
        (s.typists p).typed.flatten := by
  have hinv := typing_inv hs hideal
  refine ⟨fun k => ?_, fun k i hi => ?_, fun i i' j j' => Typing.pairs_iff hideal.fresh,
    fun p => ?_⟩
  · obtain ⟨size, hok⟩ := hinv.passed.threads k
    exact hok.written_isPrefix
  · have hinputs := hinv.passed.inputs k i
    by_cases hk : s.sessionOf i = k
    · rw [if_pos hk] at hinputs
      have hne : s.heard i ≠ [] := by
        intro hnil
        rw [hnil] at hinputs
        exact hi hinputs
      obtain ⟨j, p, c, hpair, hp, hc, hpsk, hpre⟩ := hinv.heard_isPrefix hne
      refine ⟨hk, j, p, c, hpair, hp, hc, hpsk, ?_⟩
      rw [hinputs]
      exact hpre.filterMap _
    · rw [if_neg hk] at hinputs
      exact absurd hinputs hi
  · exact hinv.sent_sublist p

/-- The bytes of the inputs among the frames of a client. -/
theorem inputBytes_filterMap_toPty (fs : List Frame) :
    inputBytes (fs.filterMap Frame.toPty) = dataPayload fs := by
  induction fs with
  | nil => rfl
  | cons f fs ih =>
    rw [← List.singleton_append, dataPayload_append, List.filterMap_append, inputBytes_append, ih]
    cases f <;> rfl

theorem inputsOf_filter (msgs : List (ℕ × PtyMsg)) (i : ℕ) :
    (msgs.filter (·.1 = i)).map Prod.snd = inputsOf msgs i := by
  induction msgs with
  | nil => rfl
  | cons m msgs ih =>
    by_cases h : m.1 = i
    · simpa [inputsOf, h] using ih
    · simpa [inputsOf, h] using ih

theorem inputBytes_map_snd (msgs : List (ℕ × PtyMsg)) :
    inputBytes (msgs.map Prod.snd) = msgs.flatMap fun m => inputBytes [m.2] := by
  induction msgs with
  | nil => rfl
  | cons m msgs ih =>
    rw [List.map_cons, ← List.singleton_append, inputBytes_append, ih, List.flatMap_cons]

/-- **One client, one connection after the other.**  Where all input of a session comes from one
client, and no connection passes anything on after a later one has, the PTY is written a part of
what was typed at that client: in order, and no keystroke twice. -/
theorem keystrokes_in_order (A : Aead Key) (hkdf : List UInt8 → List UInt8 → List UInt8 → Key)
    (s : Typing Key) (hs : (typingSystem A hkdf).Reachable s)
    (hideal : IdealTraffic A hkdf s.channels) (k p : ℕ)
    (hone : ∀ m ∈ s.toPty k, ∀ j, s.Pairs m.1 j → s.owner j = some p)
    (hseq : (s.toPty k).Pairwise fun m m' =>
      ∀ j j', s.Pairs m.1 j → s.Pairs m'.1 j' → j ≤ j') :
    (s.pty k).written.Sublist (s.typists p).typed.flatten := by
  have hinv := typing_inv hs hideal
  -- the client end of each connection that has passed anything on
  have hend : ∀ i, ∃ j, ∀ m ∈ s.toPty k, m.1 = i → s.Pairs i j ∧ j ∈ connsOf s.owner
      s.channels.ends.length p ∧ inputBytes (inputsOf (s.toPty k) i) <+: dataPayload (s.log j) := by
    intro i
    by_cases hi : ∃ m ∈ s.toPty k, m.1 = i
    · obtain ⟨m, hm, rfl⟩ := hi
      have hinputs := hinv.passed.inputs k m.1
      have hne : inputsOf (s.toPty k) m.1 ≠ [] := by
        rw [← inputsOf_filter]
        have hmem : m ∈ (s.toPty k).filter (·.1 = m.1) := by simp [hm]
        intro hnil
        rw [List.map_eq_nil_iff.1 hnil] at hmem
        cases hmem
      have hk : s.sessionOf m.1 = k := by
        by_contra hk
        rw [if_neg hk] at hinputs
        exact hne hinputs
      rw [if_pos hk] at hinputs
      have hheard : s.heard m.1 ≠ [] := by
        intro hnil
        rw [hnil] at hinputs
        exact hne hinputs
      obtain ⟨j, q, -, hpair, -, -, -, hpre⟩ := hinv.heard_isPrefix hheard
      have hj := hpair
      obtain ⟨c, -, -, hj⟩ := hj
      refine ⟨j, fun _ _ _ => ⟨hpair, ?_, ?_⟩⟩
      · exact mem_connsOf.2 ⟨lt_of_setups hj, hone m hm j hpair⟩
      · rw [hinputs, ← inputBytes_filterMap_toPty]
        exact inputBytes_isPrefix (hpre.filterMap _)
    · exact ⟨0, fun m hm hmi => absurd ⟨m, hm, hmi⟩ hi⟩
  choose κ hκ using hend
  -- each connection's input is one block
  have hblocks : ((s.toPty k).flatMap fun m => inputBytes [m.2]).Sublist
      ((connsOf s.owner s.channels.ends.length p).flatMap fun j => dataPayload (s.log j)) := by
    refine @Blocks.flatMap_sublist_blocks _ _ (fun m => κ m.1) _ _ _ ?_ _ ?_ ?_ ?_
    · exact List.pairwise_lt_range.filter _
    · refine hseq.imp_of_mem fun {m m'} hm hm' h => ?_
      exact h _ _ (hκ m.1 m hm rfl).1 (hκ m'.1 m' hm' rfl).1
    · intro m hm
      exact (hκ m.1 m hm rfl).2.1
    · intro j _
      by_cases hj : ∃ m ∈ s.toPty k, κ m.1 = j
      · obtain ⟨m, hm, rfl⟩ := hj
        obtain ⟨hpair, -, hpre⟩ := hκ m.1 m hm rfl
        have hsame : (s.toPty k).filter (κ ·.1 = κ m.1) = (s.toPty k).filter (·.1 = m.1) := by
          refine List.filter_congr fun m' hm' => decide_eq_decide.2 ?_
          exact (Typing.pairs_iff hideal.fresh (hκ m'.1 m' hm' rfl).1 hpair).symm
        rw [hsame, ← inputBytes_map_snd, inputsOf_filter]
        exact hpre.sublist
      · have hnone : (s.toPty k).filter (κ ·.1 = j) = [] := by
          rw [List.filter_eq_nil_iff]
          intro m hm hmj
          exact hj ⟨m, hm, by simpa using hmj⟩
        rw [hnone]
        exact List.nil_sublist _
  obtain ⟨size, hok⟩ := hinv.passed.threads k
  calc (s.pty k).written.Sublist (inputBytes ((s.toPty k).map Prod.snd)) :=
        hok.written_isPrefix.sublist
    _ = (s.toPty k).flatMap fun m => inputBytes [m.2] := inputBytes_map_snd _
    List.Sublist _ (sentOf s.owner s.log s.channels.ends.length p) := hblocks
    List.Sublist _ (s.typists p).typed.flatten := hinv.sent_sublist p

end Run

/-- The records of a connection on which the client types two bytes. -/
def typedRecords : List (Encryption (List UInt8)) :=
  let key := knownOffer.setup.key concatKdf
  [⟨key, nonceFor dirClientToServer 0, Frame.hello.encode⟩,
    ⟨key, nonceFor dirServerToClient 0, Frame.hello.encode⟩,
    ⟨key, nonceFor dirClientToServer 1, (Frame.data [104, 105]).encode⟩]

/-- The input is delivered twice. -/
def replayedInput : List TypingEvent :=
  let cn := knownOffer.hello.clientNonce
  let sn := knownOffer.serverNonce
  let client := (typedRecords.take 1).flatMap recordBytes
  let daemon := (typedRecords.drop 1 |>.take 1).flatMap recordBytes
  let input := (typedRecords.drop 2).flatMap recordBytes
  [.type 0 [104, 105], .accept 0 cn sn, .dial 0 cn sn, .authenticate 0 client, .greet 0 daemon,
    .stdin 0, .recv 0 input, .recv 0 input, .pty 0 .succeeds]

/-- One PSK for all. -/
def beforeTyping : Typing (List UInt8) where
  channels := noChannels
  log _ := []
  heard _ := []
  owner _ := none
  typists _ := ⟨knownOffer.psk, [], 0, none, false, false⟩
  sessionOf _ := 0
  served _ := none
  toPty _ := []
  pty _ := PtyWriter.new (80, 24)

theorem ideal_replayedInput : ∃ s,
    (typingSystem (recordsAead typedRecords) concatKdf).Reachable s ∧
      IdealTraffic (recordsAead typedRecords) concatKdf s.channels ∧
      (s.pty 0).written = [104, 105] ∧ s.served 0 = none := by
  have hrun : (typingSystem (recordsAead typedRecords) concatKdf).run beforeTyping replayedInput =
    some _ := rfl
  have hinit : (typingSystem (recordsAead typedRecords) concatKdf).init beforeTyping :=
    ⟨rfl, rfl, fun _ => rfl, fun _ => rfl, fun _ => rfl, fun _ => ⟨rfl, rfl, rfl, rfl⟩,
      fun _ => rfl, fun _ => rfl, fun _ => ⟨_, rfl⟩⟩
  obtain ⟨es, hes⟩ := typingRun_channels hrun
  refine ⟨_, System.reachable_of_run replayedInput hinit hrun,
    ⟨System.reachable_of_run (s := noChannels) es ⟨rfl, rfl⟩ hes, ⟨by decide, fun _ _ _ _ =>
      concatKdf_injective⟩, fun _ _ _ _ _ h => recordsAead_authentic h⟩, rfl, rfl⟩

/-- The second copy does not open. -/
theorem keystrokes_delivered_replayed : ∃ s : Typing (List UInt8),
    s.served 0 = none ∧ (s.pty 0).written = [104, 105] ∧
      (s.pty 0).written <+: inputBytes ((s.toPty 0).map Prod.snd) := by
  obtain ⟨s, hs, hideal, hwritten, hserved⟩ := ideal_replayedInput
  exact ⟨s, hserved, hwritten, (keystrokes_delivered _ _ s hs hideal).1 0⟩

/-- The key setup of a second connection, and its records; the client types one byte more. -/
def secondSetup : KeySetup :=
  ⟨.daemon, knownOffer.psk, Vector.replicate 32 3, Vector.replicate 32 4⟩

def secondRecords : List (Encryption (List UInt8)) :=
  let key := secondSetup.key concatKdf
  [⟨key, nonceFor dirClientToServer 0, Frame.hello.encode⟩,
    ⟨key, nonceFor dirServerToClient 0, Frame.hello.encode⟩,
    ⟨key, nonceFor dirClientToServer 1, (Frame.data [33]).encode⟩]

/-- The client is cut off and connects again, and on its second connection the input of the first
is delivered once more. -/
def reconnectedInput : List TypingEvent :=
  let cn := secondSetup.clientNonce
  let sn := secondSetup.serverNonce
  let client := (secondRecords.take 1).flatMap recordBytes
  let daemon := (secondRecords.drop 1 |>.take 1).flatMap recordBytes
  let input := (secondRecords.drop 2).flatMap recordBytes
  let old := (typedRecords.drop 2).flatMap recordBytes
  replayedInput ++ [.cut 0, .type 0 [33], .accept 0 cn sn, .dial 0 cn sn, .authenticate 2 client,
    .greet 0 daemon, .stdin 0, .recv 2 input, .recv 2 old, .pty 0 .succeeds]

theorem ideal_reconnectedInput : ∃ s,
    (typingSystem (recordsAead (typedRecords ++ secondRecords)) concatKdf).Reachable s ∧
      IdealTraffic (recordsAead (typedRecords ++ secondRecords)) concatKdf s.channels ∧
      (s.pty 0).written = [104, 105, 33] ∧
      s.toPty 0 = [(0, .input [104, 105]), (2, .input [33])] ∧
      s.owner 1 = some 0 ∧ s.owner 3 = some 0 ∧
      s.channels.setups =
        [knownOffer.setup, knownOffer.setup.peer, secondSetup, secondSetup.peer] := by
  have hrun : (typingSystem (recordsAead (typedRecords ++ secondRecords)) concatKdf).run
    beforeTyping reconnectedInput = some _ := rfl
  have hinit : (typingSystem (recordsAead (typedRecords ++ secondRecords)) concatKdf).init
      beforeTyping :=
    ⟨rfl, rfl, fun _ => rfl, fun _ => rfl, fun _ => rfl, fun _ => ⟨rfl, rfl, rfl, rfl⟩,
      fun _ => rfl, fun _ => rfl, fun _ => ⟨_, rfl⟩⟩
  obtain ⟨es, hes⟩ := typingRun_channels hrun
  refine ⟨_, System.reachable_of_run reconnectedInput hinit hrun,
    ⟨System.reachable_of_run (s := noChannels) es ⟨rfl, rfl⟩ hes, ⟨by decide, fun _ _ _ _ =>
      concatKdf_injective⟩, fun _ _ _ _ _ h => recordsAead_authentic h⟩, rfl, rfl, rfl, rfl, rfl⟩

theorem keystrokes_in_order_reconnected : ∃ s : Typing (List UInt8),
    s.toPty 0 = [(0, .input [104, 105]), (2, .input [33])] ∧ (s.pty 0).written = [104, 105, 33] ∧
      (s.pty 0).written.Sublist (s.typists 0).typed.flatten := by
  obtain ⟨s, hs, hideal, hwritten, htoPty, howner₁, howner₃, hsetups⟩ := ideal_reconnectedInput
  -- the other ends of connections 0 and 2
  have hpair₀ : s.Pairs 0 1 := ⟨knownOffer.setup, rfl, by rw [hsetups]; rfl, by rw [hsetups]; rfl⟩
  have hpair₂ : s.Pairs 2 3 := ⟨secondSetup, rfl, by rw [hsetups]; rfl, by rw [hsetups]; rfl⟩
  have hfirst : ∀ j, s.Pairs 0 j → j = 1 :=
    fun j hj => (Typing.pairs_iff hideal.fresh hj hpair₀).1 rfl
  have hsecond : ∀ j, s.Pairs 2 j → j = 3 :=
    fun j hj => (Typing.pairs_iff hideal.fresh hj hpair₂).1 rfl
  refine ⟨s, htoPty, hwritten, keystrokes_in_order _ _ s hs hideal 0 0 ?_ ?_⟩
  · rw [htoPty]
    intro m hm j hpair
    rcases List.mem_cons.1 hm with rfl | hm
    · rw [hfirst j hpair, howner₁]
    · rw [List.mem_singleton.1 hm] at hpair
      rw [hsecond j hpair, howner₃]
  · rw [htoPty, List.pairwise_pair]
    intro j j' hj hj'
    rw [hfirst j hj, hsecond j' hj']
    decide

end Thther
