import Thther.Proto.Control
import Thther.Client.Reader

/-!
# The client's connections (`connect_once` and `drive` in `client/session.rs`, `reconnect.rs`)

`connectOnce` is one connection attempt; what the network, the terminal and the scheduler do in it
is an `Attempt`.  `driveStep` is one iteration of the loop of `drive`, with the sleep at its end.
Durations are in milliseconds.

`history` records the attempts made and the delays slept; the program does not read it.
`policy_iff_no_resize_failure` says which runs follow the reconnection policy.
-/

namespace Thther

variable {Key W : Type}

/-- The errors of `connect_once`. -/
inductive ClientError
  /-- An error of the network, or of a peer that does not speak the protocol. -/
  | io (e : String)
  | rejection (r : Rejection)
  | abort (a : Abort)

/-- `e.is::<FatalSessionError>() || e.is::<handshake::Rejection>()`; a panic leaves `drive` too. -/
def ClientError.isFinal : ClientError → Bool
  | .io _ => false
  | .rejection _ | .abort _ => true

/-- Reconnect backoff policy for the client. -/
structure Backoff where
  cur : ℕ
  max : ℕ
  deriving DecidableEq

/-- `Backoff::new`. -/
def Backoff.new : Backoff := { cur := 250, max := 5000 }

/-- `Backoff::reset`. -/
def Backoff.reset (b : Backoff) : Backoff := { b with cur := 250 }

/-- `Backoff::next_delay`: the current delay, then double it (capped). -/
def Backoff.nextDelay (b : Backoff) : ℕ × Backoff :=
  (b.cur, { b with cur := min (b.cur * 2) b.max })

/-- What the outside world does during one connection attempt. -/
structure Attempt where
  /-- `TcpStream::connect` -/
  connect : Except String Unit
  clientNonce : HandshakeNonce
  /-- `handshake::client_send` -/
  clientSend : Except String Unit
  /-- `handshake::client_recv`, whose error is a `Rejection` or not. -/
  clientRecv : Except (String ⊕ Rejection) (HandshakeNonce × UInt64)
  /-- `write_frame` of the `Hello` -/
  writeHello : Except String Unit
  /-- All that the server sends after the plaintext handshake, up to the cut. -/
  wire : List UInt8
  /-- `crossterm::terminal::size` -/
  size : Option (UInt16 × UInt16)
  /-- `write_frame` of the `Resize` -/
  writeResize : Except String Unit
  /-- The run of `client_reader` next to `client_writer`. -/
  serving : List ReaderEvent

/-- `connect_once` up to the encrypted `Hello` exchange: what is left of the wire, and the
opener. -/
def helloExchange (A : Aead Key) (hkdf : List UInt8 → List UInt8 → List UInt8 → Key) (psk : Psk)
    (offset : UInt64) (a : Attempt) : Except ClientError (List UInt8 × Opener Key) :=
  match a.connect with
  | .error e => .error (.io e)
  | .ok () =>
    match a.clientSend with
    | .error e => .error (.io e)
    | .ok () =>
      match a.clientRecv with
      | .error (.inl e) => .error (.io e)
      | .error (.inr r) => .error (.rejection r)
      | .ok (serverNonce, serverTotal) =>
        if serverTotal < offset then .error (.rejection .badOffset)
        else
          let key := deriveKey hkdf psk a.clientNonce serverNonce
          match a.writeHello with
          | .error e => .error (.io e)
          | .ok () =>
            match readFrame A a.wire (Opener.new key dirServerToClient) with
            | (.error e, _, _) => .error (.io e)
            | (.ok f, wire, opener) =>
              if f = .hello then .ok (wire, opener)
              else .error (.abort (.fatal (.protocol "bad server hello")))

/-- The `Resize` that follows the `Hello` exchange fails. -/
def Attempt.resizeFails (a : Attempt) : Option String :=
  match a.size, a.writeResize with
  | some _, .error e => some e
  | _, _ => none

/-- `connect_once`: nothing while the connection still runs. -/
def connectOnce (A : Aead Key) (hkdf : List UInt8 → List UInt8 → List UInt8 → Key) (psk : Psk)
    (io : Stdout W) (output : SessionOutput W) (a : Attempt) :
    Option (Except ClientError Outcome × SessionOutput W) :=
  match helloExchange A hkdf psk output.received a with
  | .error e => some (.error e, output)
  | .ok (wire, opener) =>
    match a.resizeFails with
    | some e => some (.error (.io e), output)
    | none =>
      match (readerSystem A io wire opener output).run (.new wire opener output) a.serving with
      | none => none
      | some s =>
        match s.result with
        | none => none
        | some (.ok o) => some (.ok o, s.output)
        | some (.error e) => some (.error (.abort e), s.output)

/-- One attempt made: what came of it, whether it got past the `Hello` exchange, whether its
`Resize` failed, and how long `drive` slept after it, if it went on. -/
structure Try where
  result : Except ClientError Outcome
  pastHello : Bool
  resizeFailed : Bool
  delay : Option ℕ

/-- The state of `drive`. -/
structure Drive (W : Type) where
  output : SessionOutput W
  backoff : Backoff
  establishedOnce : Bool
  returned : Option (Except ClientError Unit)
  history : List Try

/-- `drive` when it is called. -/
def Drive.new (writer : W) : Drive W where
  output := .new writer
  backoff := .new
  establishedOnce := false
  returned := none
  history := []

section Drive

variable (A : Aead Key) (hkdf : List UInt8 → List UInt8 → List UInt8 → Key) (psk : Psk)
  (io : Stdout W)

/-- The attempt gets past the `Hello` exchange. -/
def Drive.pastHello (d : Drive W) (a : Attempt) : Bool :=
  (helloExchange A hkdf psk d.output.received a).isOk

/-- The attempt gets past the `Hello` exchange and fails in its `Resize`. -/
def Drive.resizeFails (d : Drive W) (a : Attempt) : Bool :=
  d.pastHello A hkdf psk a && a.resizeFails.isSome

/-- One iteration of the loop. -/
def driveStep (d : Drive W) (a : Attempt) : Option (Drive W) :=
  match d.returned with
  | some _ => none
  | none =>
    match connectOnce A hkdf psk io d.output a with
    | none => none
    | some (result, output) =>
      let made (delay : Option ℕ) : List Try := d.history ++
        [⟨result, d.pastHello A hkdf psk a, d.resizeFails A hkdf psk a, delay⟩]
      match result with
      | .ok .ended => some { d with output, returned := some (.ok ()), history := made none }
      | .ok .detached => some { d with output, returned := some (.ok ()), history := made none }
      | .ok .disconnected =>
        -- we were connected, so restart the backoff schedule
        let (delay, backoff) := d.backoff.reset.nextDelay
        some { d with output, establishedOnce := true, backoff, history := made (some delay) }
      | .error e =>
        if !d.establishedOnce || e.isFinal then
          some { d with output, returned := some (.error e), history := made none }
        else
          let (delay, backoff) := d.backoff.nextDelay
          some { d with output, backoff, history := made (some delay) }

/-- All runs of `drive`, from a stdout on which nothing has been written. -/
def driveSystem : System (Drive W) Attempt where
  init d := ∃ writer, d = .new writer
  step := driveStep A hkdf psk io

end Drive

/-! ### What one attempt can come to -/

section Attempt

variable {A : Aead Key} {hkdf : List UInt8 → List UInt8 → List UInt8 → Key} {psk : Psk}
  {io : Stdout W}

/-- An error of `connect_once` that is not a panic. -/
def ClientError.NoPanic : ClientError → Prop
  | .io _ | .rejection _ | .abort (.fatal _) => True
  | .abort .panicked => False

theorem helloExchange_noPanic {offset : UInt64} {a : Attempt} {e : ClientError}
    (h : helloExchange A hkdf psk offset a = .error e) : e.NoPanic := by
  unfold helloExchange at h
  cases hconnect : a.connect with
  | error e' => rw [hconnect] at h; cases h; trivial
  | ok u =>
    rw [hconnect] at h
    cases hsend : a.clientSend with
    | error e' => rw [hsend] at h; cases h; trivial
    | ok u =>
      rw [hsend] at h
      rcases hrecv : a.clientRecv with (e' | r) | ⟨nonce, total⟩
      · rw [hrecv] at h; cases h; trivial
      · rw [hrecv] at h; cases h; trivial
      · rw [hrecv] at h
        dsimp only at h
        split_ifs at h
        · cases h; trivial
        · cases hhello : a.writeHello with
          | error e' => rw [hhello] at h; cases h; trivial
          | ok u =>
            rw [hhello] at h
            dsimp only at h
            rcases hread : readFrame A a.wire
              (Opener.new (deriveKey hkdf psk a.clientNonce nonce) dirServerToClient) with
              ⟨_ | f, wire, opener⟩
            · rw [hread] at h; cases h; trivial
            · rw [hread] at h
              dsimp only at h
              split_ifs at h
              cases h
              trivial

/-- The exits of `connect_once`: short of the `Hello` exchange, in the `Resize`, or later; a later
error is a fatal one. -/
theorem connectOnce_cases {output output' : SessionOutput W} {a : Attempt}
    {result : Except ClientError Outcome}
    (h : connectOnce A hkdf psk io output a = some (result, output')) :
    (∃ e, helloExchange A hkdf psk output.received a = .error e ∧ result = .error e ∧
      output' = output) ∨
    ((helloExchange A hkdf psk output.received a).isOk = true ∧
      ∃ e, a.resizeFails = some e ∧ result = .error (.io e) ∧ output' = output) ∨
    ((helloExchange A hkdf psk output.received a).isOk = true ∧ a.resizeFails = none ∧
      ((∃ o, result = .ok o) ∨ ∃ f, result = .error (.abort (.fatal f)))) := by
  unfold connectOnce at h
  cases hhello : helloExchange A hkdf psk output.received a with
  | error e =>
    rw [hhello] at h
    cases h
    exact Or.inl ⟨e, rfl, rfl, rfl⟩
  | ok x =>
    obtain ⟨wire, opener⟩ := x
    rw [hhello] at h
    dsimp only at h
    cases hresize : a.resizeFails with
    | some e =>
      rw [hresize] at h
      cases h
      exact Or.inr (Or.inl ⟨rfl, e, rfl, rfl, rfl⟩)
    | none =>
      refine Or.inr (Or.inr ⟨rfl, rfl, ?_⟩)
      rw [hresize] at h
      dsimp only at h
      cases hrun : (readerSystem A io wire opener output).run (.new wire opener output)
          a.serving with
      | none => rw [hrun] at h; cases h
      | some s =>
        rw [hrun] at h
        dsimp only at h
        rcases hres : s.result with _ | (e | o)
        · rw [hres] at h
          cases h
        · rw [hres] at h
          cases h
          have hstart : (ClientReader.new wire opener output).ErrorsFatal := fun _ => nofun
          obtain ⟨f, rfl⟩ := (hstart.run hrun).result hres
          exact Or.inr ⟨f, rfl⟩
        · rw [hres] at h
          cases h
          exact Or.inl ⟨o, rfl⟩

end Attempt

/-! ### The reconnection policy -/

/-- A plain network error, and a connection that dropped. -/
def Try.networkError (t : Try) : Bool :=
  match t.result with
  | .ok .disconnected => true
  | .ok .ended | .ok .detached => false
  | .error e => !e.isFinal

/-- The number of attempts at the end of `h` that did not get past the `Hello` exchange. -/
def streak (h : List Try) : ℕ := (h.reverse.takeWhile fun t => !t.pastHello).length

@[simp] theorem streak_nil : streak [] = 0 := rfl

theorem streak_concat (h : List Try) (t : Try) :
    streak (h ++ [t]) = if t.pastHello then 0 else streak h + 1 := by
  unfold streak
  rw [List.reverse_append, List.reverse_singleton, List.singleton_append, List.takeWhile_cons]
  cases t.pastHello <;> rfl

/-- The delay after the `k`-th consecutive attempt that did not get past the `Hello` exchange. -/
def policyDelay (k : ℕ) : ℕ := min (250 * 2 ^ k) 5000

/-- The policy for an attempt `t` after the attempts `h`: once an attempt has got past the `Hello`
exchange, a network error leads to a delay, and an attempt that did not get there to the delay of
its number. -/
def TryFollows (h : List Try) (t : Try) : Prop :=
  (∃ t' ∈ h ++ [t], t'.pastHello = true) → t.networkError = true →
    ∃ delay, t.delay = some delay ∧ (t.pastHello = false → delay = policyDelay (streak (h ++ [t])))

/-- The reconnection policy, over everything `drive` has done. -/
structure Policy (d : Drive W) : Prop where
  error : (∃ t ∈ d.history, t.pastHello = true) → ∀ e, d.returned = some (.error e) →
    (∃ f, e = .abort (.fatal f)) ∨ ∃ r, e = .rejection r
  follows : ∀ h t rest, d.history = h ++ t :: rest → TryFollows h t

/-- No `Resize` fails before some connection has ended in `Ok(Disconnected)`; and an attempt whose
`Resize` failed is not followed by one that meets a network error short of the `Hello`
exchange. -/
def NoStaleResize (A : Aead Key) (hkdf : List UInt8 → List UInt8 → List UInt8 → Key) (psk : Psk)
    (d : Drive W) (a : Attempt) : Prop :=
  (d.resizeFails A hkdf psk a = true → d.establishedOnce = true) ∧
    ((∃ e, helloExchange A hkdf psk d.output.received a = .error (.io e)) →
      ∀ t ∈ d.history.getLast?, t.resizeFailed = false)

section Policy

variable {A : Aead Key} {hkdf : List UInt8 → List UInt8 → List UInt8 → Key} {psk : Psk}
  {io : Stdout W} {d d' : Drive W} {a : Attempt}

/-- One iteration: the session is over, the connection dropped, the error is returned, or `drive`
sleeps on it. -/
theorem driveStep_cases (h : driveStep A hkdf psk io d a = some d') :
    d.returned = none ∧ ∃ result output, connectOnce A hkdf psk io d.output a =
      some (result, output) ∧
    ((∃ o, result = .ok o ∧ o ≠ .disconnected ∧ d' = { d with
        output, returned := some (.ok ())
        history := d.history ++ [⟨result, d.pastHello A hkdf psk a, d.resizeFails A hkdf psk a,
          none⟩] }) ∨
    (result = .ok .disconnected ∧ d' = { d with
        output, establishedOnce := true, backoff := d.backoff.reset.nextDelay.2
        history := d.history ++ [⟨result, d.pastHello A hkdf psk a, d.resizeFails A hkdf psk a,
          some d.backoff.reset.nextDelay.1⟩] }) ∨
    (∃ e, result = .error e ∧ (d.establishedOnce = false ∨ e.isFinal = true) ∧ d' = { d with
        output, returned := some (.error e)
        history := d.history ++ [⟨result, d.pastHello A hkdf psk a, d.resizeFails A hkdf psk a,
          none⟩] }) ∨
    (∃ e, result = .error e ∧ d.establishedOnce = true ∧ e.isFinal = false ∧ d' = { d with
        output, backoff := d.backoff.nextDelay.2
        history := d.history ++ [⟨result, d.pastHello A hkdf psk a, d.resizeFails A hkdf psk a,
          some d.backoff.nextDelay.1⟩] })) := by
  unfold driveStep at h
  cases hret : d.returned with
  | some r => rw [hret] at h; cases h
  | none =>
    rw [hret] at h
    dsimp only at h
    refine ⟨rfl, ?_⟩
    cases hconn : connectOnce A hkdf psk io d.output a with
    | none => rw [hconn] at h; cases h
    | some x =>
      obtain ⟨result, output⟩ := x
      rw [hconn] at h
      refine ⟨result, output, rfl, ?_⟩
      cases result with
      | ok o =>
        cases o with
        | ended => cases h; exact Or.inl ⟨_, rfl, nofun, rfl⟩
        | detached => cases h; exact Or.inl ⟨_, rfl, nofun, rfl⟩
        | disconnected => cases h; exact Or.inr (Or.inl ⟨rfl, rfl⟩)
      | error e =>
        dsimp only at h
        split_ifs at h with hfinal
        · cases h
          refine Or.inr (Or.inr (Or.inl ⟨e, rfl, ?_, rfl⟩))
          simpa using hfinal
        · cases h
          have hnot : d.establishedOnce = true ∧ e.isFinal = false := by simpa using hfinal
          exact Or.inr (Or.inr (Or.inr ⟨e, rfl, hnot.1, hnot.2, rfl⟩))

theorem Drive.pastHello_of_error {e : ClientError}
    (h : helloExchange A hkdf psk d.output.received a = .error e) :
    d.pastHello A hkdf psk a = false := by
  unfold Drive.pastHello
  rw [h]
  rfl

theorem Drive.resizeFails_of_none (h : a.resizeFails = none) :
    d.resizeFails A hkdf psk a = false := by
  unfold Drive.resizeFails
  rw [h]
  exact Bool.and_false _

theorem Drive.resizeFails_of_some (hpast : d.pastHello A hkdf psk a = true) {e : String}
    (h : a.resizeFails = some e) : d.resizeFails A hkdf psk a = true := by
  unfold Drive.resizeFails
  rw [hpast, h]
  rfl

/-- A step adds one attempt to the history. -/
theorem driveStep_history (h : driveStep A hkdf psk io d a = some d') :
    ∃ t, d'.history = d.history ++ [t] ∧ t.pastHello = d.pastHello A hkdf psk a ∧
      t.resizeFailed = d.resizeFails A hkdf psk a := by
  obtain ⟨-, result, output, -, hcase⟩ := driveStep_cases h
  rcases hcase with ⟨o, -, -, rfl⟩ | ⟨-, rfl⟩ | ⟨e, -, -, rfl⟩ | ⟨e, -, -, -, rfl⟩
  all_goals exact ⟨_, rfl, rfl, rfl⟩

/-- Every split of a longer history is a split of the shorter one, or the last attempt. -/
theorem follows_concat {l : List Try} {t : Try} :
    (∀ h x rest, l ++ [t] = h ++ x :: rest → TryFollows h x) ↔
      (∀ h x rest, l = h ++ x :: rest → TryFollows h x) ∧ TryFollows l t := by
  constructor
  · intro hall
    refine ⟨?_, hall l t [] rfl⟩
    rintro h x rest rfl
    exact hall h x (rest ++ [t]) (by simp)
  · rintro ⟨hall, hlast⟩ h x rest heq
    rcases List.eq_nil_or_concat rest with rfl | ⟨rest, y, rfl⟩
    · obtain ⟨rfl, ht⟩ := List.append_inj' heq rfl
      obtain rfl : t = x := by simpa using ht
      exact hlast
    · rw [List.concat_eq_append, ← List.cons_append, ← List.append_assoc] at heq
      exact hall h x rest (List.append_inj' heq rfl).1

/-- The policy after a step: the policy before it, the policy for the attempt, and for an error
returned. -/
theorem policy_step_iff (h : driveStep A hkdf psk io d a = some d') {t : Try}
    (ht : d'.history = d.history ++ [t]) :
    Policy d' ↔ Policy d ∧ TryFollows d.history t ∧
      ((∃ t ∈ d'.history, t.pastHello = true) → ∀ e, d'.returned = some (.error e) →
        (∃ f, e = .abort (.fatal f)) ∨ ∃ r, e = .rejection r) := by
  have hnone := (driveStep_cases h).1
  constructor
  · intro hp
    have hf := hp.follows
    rw [ht, follows_concat] at hf
    refine ⟨⟨?_, hf.1⟩, hf.2, hp.error⟩
    intro _ e he
    rw [hnone] at he
    cases he
  · rintro ⟨hp, hlast, herr⟩
    refine ⟨herr, ?_⟩
    rw [ht, follows_concat]
    exact ⟨hp.follows, hlast⟩

/-- What the backoff and the flag know of the history, while the condition is met. -/
structure Drive.Inv (d : Drive W) : Prop where
  max : d.backoff.max = 5000
  fresh : d.returned = none → d.establishedOnce = false → d.history = []
  resize : ∀ t ∈ d.history, t.resizeFailed = true → t.pastHello = true
  cur : d.returned = none → d.establishedOnce = true → ∃ t, d.history.getLast? = some t ∧
    if t.resizeFailed = true then 1000 ≤ d.backoff.cur ∧ d.backoff.cur ≤ 5000
    else d.backoff.cur = policyDelay (streak d.history + 1)

theorem policyDelay_le (k : ℕ) : policyDelay k ≤ 5000 := Nat.min_le_right _ _

theorem le_policyDelay_succ (k : ℕ) : 500 ≤ policyDelay (k + 1) := by
  have hpos : 0 < 2 ^ k := Nat.pow_pos (by decide)
  unfold policyDelay
  rw [Nat.pow_succ]
  omega

/-- Doubling a delay of the policy, capped, gives the next one. -/
theorem min_policyDelay_mul_two (k : ℕ) : min (policyDelay k * 2) 5000 = policyDelay (k + 1) := by
  unfold policyDelay
  rw [Nat.pow_succ]
  omega

theorem streak_of_last {h : List Try} {t : Try} (hlast : h.getLast? = some t)
    (hpast : t.pastHello = true) : streak h = 0 := by
  obtain ⟨l, rfl⟩ := List.getLast?_eq_some_iff.1 hlast
  rw [streak_concat, if_pos hpast]

/-- Once established, the current delay is at least twice the first one. -/
theorem Drive.Inv.le_cur (h : d.Inv) (hret : d.returned = none) (he : d.establishedOnce = true) :
    500 ≤ d.backoff.cur ∧ d.backoff.cur ≤ 5000 := by
  obtain ⟨t, -, hcur⟩ := h.cur hret he
  split_ifs at hcur
  · omega
  · rw [hcur]
    exact ⟨le_policyDelay_succ _, policyDelay_le _⟩

theorem Drive.inv_new (writer : W) : (Drive.new writer).Inv where
  max := rfl
  fresh := fun _ _ => rfl
  resize := by
    intro t ht
    cases ht
  cur := fun _ => nofun

theorem Drive.Inv.step (h : d.Inv) (hok : NoStaleResize A hkdf psk d a)
    (hstep : driveStep A hkdf psk io d a = some d') : d'.Inv := by
  have hresize : ∀ t ∈ d'.history, t.resizeFailed = true → t.pastHello = true := by
    obtain ⟨t, ht, hpast, hfail⟩ := driveStep_history hstep
    intro t' ht' hf
    rw [ht] at ht'
    rcases List.mem_append.1 ht' with hmem | hmem
    · exact h.resize t' hmem hf
    · rw [List.mem_singleton.1 hmem] at hf ⊢
      rw [hfail, Drive.resizeFails, Bool.and_eq_true] at hf
      rw [hpast]
      exact hf.1
  obtain ⟨hret, result, output, hconn, hcase⟩ := driveStep_cases hstep
  rcases hcase with ⟨o, -, -, rfl⟩ | ⟨rfl, rfl⟩ | ⟨e, -, -, rfl⟩ | ⟨e, rfl, hest, hfinal, rfl⟩
  · exact ⟨h.max, nofun, hresize, nofun⟩
  · -- the connection dropped: the schedule starts again
    have hpast : d.pastHello A hkdf psk a = true ∧ d.resizeFails A hkdf psk a = false := by
      rcases connectOnce_cases hconn with ⟨e, -, he, -⟩ | ⟨-, e, -, he, -⟩ | ⟨hp, hr, -⟩
      · cases he
      · cases he
      · exact ⟨hp, Drive.resizeFails_of_none hr⟩
    refine ⟨h.max, fun _ => nofun, hresize, ?_⟩
    intro _ _
    refine ⟨_, List.getLast?_concat, ?_⟩
    dsimp only
    rw [if_neg (by rw [hpast.2]; exact Bool.false_ne_true), streak_concat, if_pos hpast.1]
    show min (250 * 2) d.backoff.max = policyDelay 1
    rw [h.max]
    rfl
  · exact ⟨h.max, nofun, hresize, nofun⟩
  · -- a network error after the first connection
    have hmax : d.backoff.nextDelay.2.max = 5000 := h.max
    have hnext : d.backoff.nextDelay.2.cur = min (d.backoff.cur * 2) 5000 := by
      rw [← h.max]
      rfl
    refine ⟨hmax, ?_, hresize, ?_⟩
    · intro _ he
      have hestablished : d.establishedOnce = false := he
      rw [hest] at hestablished
      cases hestablished
    · intro _ _
      refine ⟨_, List.getLast?_concat, ?_⟩
      have hlow := h.le_cur hret hest
      dsimp only
      split_ifs with hrf
      · omega
      · -- short of the `Hello` exchange, and not behind a failed `Resize`
        have hshort : d.pastHello A hkdf psk a = false ∧
            ∃ e', helloExchange A hkdf psk d.output.received a = .error (.io e') := by
          rcases connectOnce_cases hconn with ⟨e', hhello, he, -⟩ | ⟨hp, e', hr, -, -⟩ |
            ⟨-, -, ⟨o, ho⟩ | ⟨f, hf⟩⟩
          · cases he
            refine ⟨Drive.pastHello_of_error hhello, ?_⟩
            cases e with
            | io e => exact ⟨e, hhello⟩
            | _ => cases hfinal
          · exact absurd (Drive.resizeFails_of_some hp hr) hrf
          · cases ho
          · cases hf
            cases hfinal
        obtain ⟨t, hlast, hcur⟩ := h.cur hret hest
        rw [if_neg (by rw [hok.2 hshort.2 t hlast]; exact Bool.false_ne_true)] at hcur
        rw [streak_concat, if_neg (by rw [hshort.1]; exact Bool.false_ne_true), hnext, hcur]
        exact min_policyDelay_mul_two _

theorem inv_of_meets {writer : W} {as : List Attempt}
    (hrun : (driveSystem A hkdf psk io).run (.new writer) as = some d)
    (hok : (driveSystem A hkdf psk io).RunMeets (NoStaleResize A hkdf psk) (.new writer) as) :
    d.Inv := by
  have hinit : (driveSystem A hkdf psk io).init (.new writer) := ⟨writer, rfl⟩
  have hreach : (driveSystem A hkdf psk io).ReachableWith (NoStaleResize A hkdf psk) d :=
    (System.ReachableWith.init hinit).run_meets hok hrun
  refine System.invariant_with ?_ ?_ hreach
  · rintro d ⟨writer, rfl⟩
    exact Drive.inv_new writer
  · intro d a d' hI hmeets hstep
    exact hI.step hmeets hstep

/-- An attempt that gets past the `Hello` exchange, or ends there for good, meets the second half
of the condition. -/
theorem noStaleResize_iff_of_not_io
    (hhello : ∀ e, helloExchange A hkdf psk d.output.received a ≠ .error (.io e)) :
    NoStaleResize A hkdf psk d a ↔
      (d.resizeFails A hkdf psk a = true → d.establishedOnce = true) := by
  unfold NoStaleResize
  constructor
  · exact fun h => h.1
  · intro h
    refine ⟨h, ?_⟩
    rintro ⟨e, he⟩
    exact absurd he (hhello e)

theorem helloExchange_ne_io_of_isOk
    (h : (helloExchange A hkdf psk d.output.received a).isOk = true) (e : String) :
    helloExchange A hkdf psk d.output.received a ≠ .error (.io e) := by
  intro he
  rw [he] at h
  cases h

/-- An attempt that gets on to `client_reader` meets the condition. -/
theorem noStaleResize_of_served
    (hok : (helloExchange A hkdf psk d.output.received a).isOk = true)
    (hr : a.resizeFails = none) : NoStaleResize A hkdf psk d a := by
  rw [noStaleResize_iff_of_not_io (helloExchange_ne_io_of_isOk hok),
    Drive.resizeFails_of_none hr]
  exact fun hrf => absurd hrf Bool.false_ne_true

/-- A network error short of the `Hello` exchange, once established: the delay is that of the
policy unless the attempt before it failed in its `Resize`. -/
theorem Drive.Inv.short_iff (h : d.Inv) (hret : d.returned = none)
    (hest : d.establishedOnce = true) {e : String}
    (hhello : helloExchange A hkdf psk d.output.received a = .error (.io e)) :
    TryFollows d.history ⟨.error (.io e), d.pastHello A hkdf psk a, d.resizeFails A hkdf psk a,
        some d.backoff.cur⟩ ↔
      NoStaleResize A hkdf psk d a := by
  have hpast := Drive.pastHello_of_error hhello
  obtain ⟨t, hlast, hcur⟩ := h.cur hret hest
  have hstreak : ∀ t' : Try, t'.pastHello = false →
      streak (d.history ++ [t']) = streak d.history + 1 := by
    intro t' ht'
    rw [streak_concat, if_neg (by rw [ht']; exact Bool.false_ne_true)]
  cases hrf : t.resizeFailed with
  | false =>
    rw [if_neg (by rw [hrf]; exact Bool.false_ne_true)] at hcur
    constructor
    · intro _
      refine ⟨?_, ?_⟩
      · intro _
        exact hest
      · intro _ t' ht'
        rw [hlast] at ht'
        cases ht'
        exact hrf
    · intro _ _ _
      refine ⟨_, rfl, ?_⟩
      intro _
      rw [hstreak _ hpast]
      exact hcur
  | true =>
    rw [if_pos hrf] at hcur
    have hmem : t ∈ d.history := List.mem_of_getLast? hlast
    have htp := h.resize t hmem hrf
    constructor
    · intro hf
      obtain ⟨delay, hdelay, heq⟩ := hf ⟨t, List.mem_append_left _ hmem, htp⟩ rfl
      cases hdelay
      have := heq hpast
      rw [hstreak _ hpast, streak_of_last hlast htp] at this
      have hfirst : policyDelay (0 + 1) = 500 := rfl
      omega
    · intro hok
      have := hok.2 ⟨e, hhello⟩ t hlast
      rw [hrf] at this
      cases this

/-- Behind the `Hello` exchange any delay is right. -/
theorem tryFollows_of_pastHello {l : List Try} {t : Try} (hpast : t.pastHello = true)
    (hdelay : ∃ delay, t.delay = some delay) : TryFollows l t := by
  intro _ _
  obtain ⟨delay, hdelay⟩ := hdelay
  refine ⟨delay, hdelay, ?_⟩
  intro hshort
  rw [hpast] at hshort
  cases hshort

/-- An attempt whose result is no network error needs no delay. -/
theorem tryFollows_of_not_networkError {l : List Try} {t : Try} (hnet : t.networkError = false) :
    TryFollows l t := by
  intro _ hnet'
  rw [hnet] at hnet'
  cases hnet'

/-- An attempt that gets on to `client_reader` keeps the policy. -/
theorem Policy.step_of_served (hp : Policy d) (hstep : driveStep A hkdf psk io d a = some d')
    (hok : (helloExchange A hkdf psk d.output.received a).isOk = true)
    (hr : a.resizeFails = none) : Policy d' := by
  obtain ⟨hret, result, output, hconn, hcase⟩ := driveStep_cases hstep
  have hserved : (∃ o, result = .ok o) ∨ ∃ f, result = .error (.abort (.fatal f)) := by
    rcases connectOnce_cases hconn with ⟨e, hhello, -, -⟩ | ⟨-, e, hr', -, -⟩ | ⟨-, -, hres⟩
    · rw [hhello] at hok
      cases hok
    · rw [hr] at hr'
      cases hr'
    · exact hres
  rcases hcase with ⟨o, rfl, ho, rfl⟩ | ⟨rfl, rfl⟩ | ⟨e, rfl, -, rfl⟩ | ⟨e, rfl, -, hfin, rfl⟩
  · -- the session is over
    refine (policy_step_iff hstep rfl).2 ⟨hp, tryFollows_of_not_networkError ?_, fun _ _ => nofun⟩
    cases o with
    | disconnected => exact absurd rfl ho
    | _ => rfl
  · -- the connection dropped
    refine (policy_step_iff hstep rfl).2 ⟨hp, tryFollows_of_pastHello hok ⟨_, rfl⟩, ?_⟩
    intro _ e he
    rw [show d.returned = some (.error e) from he] at hret
    cases hret
  · -- stdout failed
    rcases hserved with ⟨o, ho⟩ | ⟨f, hf⟩
    · cases ho
    · cases hf
      refine (policy_step_iff hstep rfl).2 ⟨hp, tryFollows_of_not_networkError rfl, ?_⟩
      intro _ e he
      cases he
      exact Or.inl ⟨f, rfl⟩
  · rcases hserved with ⟨o, ho⟩ | ⟨f, hf⟩
    · cases ho
    · cases hf
      cases hfin

/-- A failed `Resize` is slept on once a connection has ended in `Ok(Disconnected)`, and returned
before. -/
theorem Policy.step_of_resize (hp : Policy d) (hstep : driveStep A hkdf psk io d a = some d')
    (hok : (helloExchange A hkdf psk d.output.received a).isOk = true) {e : String}
    (hr : a.resizeFails = some e) : Policy d' ↔ d.establishedOnce = true := by
  obtain ⟨hret, result, output, hconn, hcase⟩ := driveStep_cases hstep
  obtain rfl : result = .error (.io e) := by
    rcases connectOnce_cases hconn with ⟨e', hhello, -, -⟩ | ⟨-, e', hr', hres, -⟩ | ⟨-, hr', -⟩
    · rw [hhello] at hok
      cases hok
    · rw [hr] at hr'
      cases hr'
      exact hres
    · rw [hr] at hr'
      cases hr'
  rcases hcase with ⟨o, ho, -⟩ | ⟨ho, -⟩ | ⟨e', he, hfin, rfl⟩ | ⟨e', he, hest, -, rfl⟩
  · cases ho
  · cases ho
  · cases he
    have hfirst : d.establishedOnce = false := hfin.resolve_right nofun
    rw [policy_step_iff hstep rfl]
    constructor
    · rintro ⟨-, hf, -⟩
      obtain ⟨delay, hdelay, -⟩ := hf ⟨_, List.mem_append_right _ List.mem_cons_self, hok⟩ rfl
      cases hdelay
    · intro hest
      rw [hfirst] at hest
      cases hest
  · refine ⟨fun _ => hest, fun _ => ?_⟩
    refine (policy_step_iff hstep rfl).2 ⟨hp, tryFollows_of_pastHello hok ⟨_, rfl⟩, ?_⟩
    intro _ e he
    rw [show d.returned = some (.error e) from he] at hret
    cases hret

/-- An attempt that meets an error short of the `Hello` exchange. -/
theorem Drive.Inv.policy_step_of_hello (h : d.Inv) (hp : Policy d)
    (hstep : driveStep A hkdf psk io d a = some d') {e : ClientError}
    (hhello : helloExchange A hkdf psk d.output.received a = .error e) :
    Policy d' ↔ NoStaleResize A hkdf psk d a := by
  have hpast := Drive.pastHello_of_error hhello
  have hnrf : d.resizeFails A hkdf psk a ≠ true := by
    unfold Drive.resizeFails
    rw [hpast]
    exact Bool.false_ne_true
  obtain ⟨hret, result, output, hconn, hcase⟩ := driveStep_cases hstep
  obtain rfl : result = .error e := by
    rcases connectOnce_cases hconn with ⟨e', hhello', hres, -⟩ | ⟨hok, -⟩ | ⟨hok, -⟩
    · rw [hhello] at hhello'
      cases hhello'
      exact hres
    · rw [hhello] at hok
      cases hok
    · rw [hhello] at hok
      cases hok
  rcases hcase with ⟨o, ho, -⟩ | ⟨ho, -⟩ | ⟨e', he, hfin, rfl⟩ | ⟨e', he, hest, hfin, rfl⟩
  · cases ho
  · cases ho
  · -- the error is returned
    cases he
    cases e with
    | io e =>
      -- short of the first connection: nothing has happened before
      have hempty := h.fresh hret (hfin.resolve_right nofun)
      have hnone : ∀ t : Try, t.pastHello = false →
          ¬ ∃ t' ∈ d.history ++ [t], t'.pastHello = true := by
        rintro t ht ⟨t', hmem, ht'⟩
        rw [hempty, List.nil_append, List.mem_singleton] at hmem
        rw [hmem, ht] at ht'
        cases ht'
      constructor
      · intro _
        refine ⟨fun hrf => absurd hrf hnrf, ?_⟩
        intro _ t ht
        rw [hempty] at ht
        cases ht
      · intro _
        refine (policy_step_iff hstep rfl).2 ⟨hp, ?_, ?_⟩
        · intro hex
          exact absurd hex (hnone _ hpast)
        · intro hex
          exact absurd hex (hnone _ hpast)
    | rejection r =>
      rw [noStaleResize_iff_of_not_io (by rw [hhello]; exact fun _ => nofun)]
      refine ⟨fun _ hrf => absurd hrf hnrf, fun _ => ?_⟩
      refine (policy_step_iff hstep rfl).2 ⟨hp, tryFollows_of_not_networkError rfl, ?_⟩
      intro _ e he
      cases he
      exact Or.inr ⟨r, rfl⟩
    | abort b =>
      rw [noStaleResize_iff_of_not_io (by rw [hhello]; exact fun _ => nofun)]
      refine ⟨fun _ hrf => absurd hrf hnrf, fun _ => ?_⟩
      refine (policy_step_iff hstep rfl).2 ⟨hp, tryFollows_of_not_networkError rfl, ?_⟩
      intro _ e he
      cases he
      have hpanic := helloExchange_noPanic hhello
      cases b with
      | fatal f => exact Or.inl ⟨f, rfl⟩
      | panicked => exact absurd hpanic id
  · -- `drive` sleeps on the error
    cases he
    cases e with
    | io e =>
      rw [← h.short_iff hret hest hhello, policy_step_iff hstep rfl]
      refine ⟨fun hall => hall.2.1, fun hf => ⟨hp, hf, ?_⟩⟩
      intro _ e he
      rw [show d.returned = some (.error e) from he] at hret
      cases hret
    | _ => cases hfin

/-- One more attempt keeps the policy if and only if it meets the condition. -/
theorem Drive.Inv.policy_step (h : d.Inv) (hp : Policy d)
    (hstep : driveStep A hkdf psk io d a = some d') :
    Policy d' ↔ NoStaleResize A hkdf psk d a := by
  obtain ⟨-, result, output, hconn, -⟩ := driveStep_cases hstep
  rcases connectOnce_cases hconn with ⟨e, hhello, -, -⟩ | ⟨hok, e, hr, -, -⟩ | ⟨hok, hr, -⟩
  · exact h.policy_step_of_hello hp hstep hhello
  · have hrf : d.resizeFails A hkdf psk a = true := Drive.resizeFails_of_some hok hr
    rw [hp.step_of_resize hstep hok hr,
      noStaleResize_iff_of_not_io (helloExchange_ne_io_of_isOk hok)]
    exact ⟨fun hest _ => hest, fun hest => hest hrf⟩
  · exact ⟨fun _ => noStaleResize_of_served hok hr, fun _ => hp.step_of_served hstep hok hr⟩

/-- **Once authenticated, a network failure means reconnect.**  A run of `drive` follows the
reconnection policy if and only if no `Resize` fails before some connection has ended in
`Ok(Disconnected)`, and no attempt whose `Resize` failed is followed by one that meets a network
error short of the `Hello` exchange. -/
theorem policy_iff_no_resize_failure (A : Aead Key)
    (hkdf : List UInt8 → List UInt8 → List UInt8 → Key) (psk : Psk) (io : Stdout W) (writer : W)
    (as : List Attempt) (d : Drive W)
    (hrun : (driveSystem A hkdf psk io).run (.new writer) as = some d) :
    Policy d ↔
      (driveSystem A hkdf psk io).RunMeets (NoStaleResize A hkdf psk) (.new writer) as := by
  induction as using List.reverseRecOn generalizing d with
  | nil =>
    cases hrun
    refine ⟨fun _ => trivial, fun _ => ⟨?_, ?_⟩⟩
    · intro _ e he
      cases he
    · intro h t rest heq
      exact absurd heq.symm (by simp [Drive.new])
  | append_singleton as a ih =>
    rw [System.run_append, Option.bind_eq_some_iff] at hrun
    obtain ⟨d₁, h₁, h₂⟩ := hrun
    rw [System.run_singleton] at h₂
    have hstep : driveStep A hkdf psk io d₁ a = some d := h₂
    rw [System.runMeets_append h₁, System.runMeets_singleton, ← ih d₁ h₁]
    constructor
    · intro hp
      obtain ⟨t, ht, -⟩ := driveStep_history hstep
      have hp₁ := ((policy_step_iff hstep ht).1 hp).1
      exact ⟨hp₁, ((inv_of_meets h₁ ((ih d₁ h₁).1 hp₁)).policy_step hp₁ hstep).1 hp⟩
    · rintro ⟨hp₁, hok⟩
      exact ((inv_of_meets h₁ ((ih d₁ h₁).1 hp₁)).policy_step hp₁ hstep).2 hok

end Policy

/-- The record of the server's `Hello`. -/
def helloRecord : List UInt8 := [0, 0, 0, 31] ++ List.replicate 16 0 ++ Frame.hello.encode

/-- A connection that the server cuts right after its `Hello`. -/
def cutAttempt : Attempt where
  connect := .ok ()
  clientNonce := Vector.replicate 32 0
  clientSend := .ok ()
  clientRecv := .ok (Vector.replicate 32 0, 0)
  writeHello := .ok ()
  wire := helloRecord
  size := some (80, 24)
  writeResize := .ok ()
  serving := [.select]

/-- The same, when the client still sends its `Resize`. -/
def resizeFailingAttempt : Attempt := { cutAttempt with writeResize := .error "Broken pipe" }

/-- The server cannot be reached. -/
def unreachableAttempt : Attempt := { cutAttempt with connect := .error "Network is unreachable" }

/-- A cut connection, and a server that cannot be reached for a while. -/
theorem policy_iff_no_resize_failure_cut : ∃ d,
    (driveSystem paddingAead (fun _ _ _ => ()) (Vector.replicate 32 0) recording).run (.new [])
      [cutAttempt, unreachableAttempt, unreachableAttempt] = some d ∧
    d.history.map (·.delay) = [some 250, some 500, some 1000] ∧ Policy d := by
  refine ⟨_, rfl, rfl, ?_⟩
  apply (policy_iff_no_resize_failure paddingAead (fun _ _ _ => ()) (Vector.replicate 32 0)
    recording [] [cutAttempt, unreachableAttempt, unreachableAttempt] _ rfl).2
  have hpair : ∀ {d : Drive (List (Transcript.Segment UInt8))} {a : Attempt},
      d.resizeFails paddingAead (fun _ _ _ => ()) (Vector.replicate 32 0) a = false →
      (∀ t ∈ d.history.getLast?, t.resizeFailed = false) →
      NoStaleResize paddingAead (fun _ _ _ => ()) (Vector.replicate 32 0) d a := by
    intro d a hrf hlast
    refine ⟨?_, fun _ => hlast⟩
    intro h
    rw [hrf] at h
    cases h
  refine ⟨hpair rfl ?_, hpair rfl ?_, hpair rfl ?_, trivial⟩
  all_goals
    intro t ht
    cases ht
  all_goals rfl

/-- The cut is met by the `Resize`: `drive` returns the error of the network. -/
theorem resize_failure_ends_drive : ∃ d,
    (driveSystem paddingAead (fun _ _ _ => ()) (Vector.replicate 32 0) recording).run (.new [])
      [resizeFailingAttempt] = some d ∧
    d.returned = some (.error (.io "Broken pipe")) ∧
    d.history.map (·.pastHello) = [true] ∧ ¬ Policy d := by
  refine ⟨_, rfl, rfl, rfl, ?_⟩
  intro hp
  have herr := hp.error ⟨_, List.mem_cons_self, rfl⟩ (.io "Broken pipe") rfl
  rcases herr with ⟨f, hf⟩ | ⟨r, hr⟩
  · cases hf
  · cases hr

end Thther
