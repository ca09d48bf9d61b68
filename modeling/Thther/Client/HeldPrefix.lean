import Thther.Client.Writer

/-!
# A half-typed detach sequence and reconnection (`client/session.rs`)

The stdin channel outlives the connections, but `prefix_pending` is local to one call of
`client_writer`: a Ctrl-\ held back when a connection ends is dropped.  `overConnections` is what
becomes of stdin over successive connections, `uninterrupted` what one call would have made of the
same chunks, and `over_eq_uninterrupted_iff` says exactly when the two agree.
-/

namespace Thther

open Escape

/-- A `Resize`, `Pong` or heartbeat write fails, or the pong channel is closed. -/
def WriterEvent.FailsIdle : WriterEvent → Prop
  | .stdin _ _ => False
  | .winch size ok => size.isSome = true ∧ ok = false
  | .pong p ok => p.isSome = true → ok = false
  | .tick _ okAck okPing => okAck = true → okPing = false

/-- What one connection's `client_writer` sees: iterations that succeed, and then the write that
fails between two chunks, if it is not the reader that ends the connection. -/
structure WriterRun where
  events : List WriterEvent
  failure : Option WriterEvent
  succeeds : ∀ e ∈ events, e.Succeeds
  fails : ∀ e ∈ failure, e.FailsIdle

/-- The chunks of stdin a connection consumes. -/
def WriterRun.chunks (r : WriterRun) : List (List UInt8) := Thther.chunks r.events

/-- The writer of a connection when it ends. -/
def WriterRun.after (r : WriterRun) : ClientWriter :=
  ClientWriter.new.after (r.events ++ r.failure.toList)

/-- What has become of stdin: the `Data` payloads, the bytes looked at, and whether the client has
detached there. -/
structure Delivered where
  payload : List UInt8
  scanned : List UInt8
  detached : Bool
  deriving DecidableEq

/-- Stdin over the successive connections of `drive`, which stops when one of them detaches. -/
def overConnections : List WriterRun → Delivered
  | [] => ⟨[], [], false⟩
  | r :: rs =>
    let w := r.after
    if w.outcome = some .detached then ⟨dataPayload w.sent, w.scanned, true⟩
    else
      let rest := overConnections rs
      ⟨dataPayload w.sent ++ rest.payload, w.scanned ++ rest.scanned, rest.detached⟩

/-- The same chunks in one call of `client_writer`. -/
def uninterrupted (rs : List WriterRun) : Delivered :=
  let w := ClientWriter.new.after
    ((rs.flatMap WriterRun.chunks).map fun bytes => .stdin (some bytes) true)
  ⟨dataPayload w.sent, w.scanned, w.outcome = some .detached⟩

/-! ### Chunks and connection changes -/

/-- The result of what has been typed. -/
def Typed.delivered (t : Typed) : Delivered := ⟨t.payload, t.scanned, t.outcome = some .detached⟩

/-- A new call of `client_writer`. -/
def Typed.reconnect (t : Typed) : Typed := { t with prefixPending := false }

/-- Chunks, with connection changes (`none`) between them. -/
def Typed.over (t : Typed) : List (Option (List UInt8)) → Typed
  | [] => t
  | none :: items => t.reconnect.over items
  | some bytes :: items => (t.feed bytes).over items

/-- The same chunks without the connection changes. -/
def Typed.through (t : Typed) : List (Option (List UInt8)) → Typed
  | [] => t
  | none :: items => t.through items
  | some bytes :: items => (t.feed bytes).through items

/-- The chunks of connections, each followed by a connection change. -/
def items (css : List (List (List UInt8))) : List (Option (List UInt8)) :=
  css.flatMap fun cs => cs.map some ++ [none]

theorem Typed.feed_of_outcome {t : Typed} {o : Outcome} (h : t.outcome = some o)
    (bytes : List UInt8) : t.feed bytes = t := by
  unfold Typed.feed
  rw [h]

theorem Typed.feed_nil (t : Typed) : t.feed [] = t := by
  obtain ⟨payload, scanned, pending, outcome⟩ := t
  cases outcome with
  | some o => rfl
  | none => simp [Typed.feed, scanStdin]

/-- The effect of a chunk, in terms of the prefix held back before it. -/
theorem Typed.feed_eq {t : Typed} (h : t.outcome = none) (bytes : List UInt8) :
    t.feed bytes =
      match detachAt (held detachPrefix t.prefixPending ++ bytes) with
      | some i => { t with
          prefixPending := false
          scanned := t.scanned ++
            bytes.take (i + 2 - (held detachPrefix t.prefixPending).length)
          outcome := some .detached }
      | none => { t with
          payload := t.payload ++
            released detachPrefix (held detachPrefix t.prefixPending ++ bytes)
          scanned := t.scanned ++ bytes
          prefixPending :=
            endsHeld detachPrefix (held detachPrefix t.prefixPending ++ bytes) } := by
  unfold Typed.feed
  rw [h]
  dsimp only
  rw [scanStdin_eq, scanFresh]
  cases hd : detachAt (held detachPrefix t.prefixPending ++ bytes) with
  | none => rfl
  | some i =>
    have hlt := lt_length_of_pairAt hd
    have hheld : (held detachPrefix t.prefixPending).length ≤ 1 := by
      unfold held
      split_ifs <;> simp
    rw [List.length_append] at hlt
    dsimp only
    rw [List.length_drop, List.length_append]
    congr 3
    omega

theorem Typed.over_of_outcome {t : Typed} {o : Outcome} (h : t.outcome = some o)
    (its : List (Option (List UInt8))) : (t.over its).delivered = t.delivered := by
  induction its generalizing t with
  | nil => rfl
  | cons it its ih =>
    cases it with
    | none => exact ih (t := t.reconnect) h
    | some bytes =>
      show ((t.feed bytes).over its).delivered = _
      rw [Typed.feed_of_outcome h]
      exact ih h

theorem Typed.through_of_outcome {t : Typed} {o : Outcome} (h : t.outcome = some o)
    (its : List (Option (List UInt8))) : t.through its = t := by
  induction its with
  | nil => rfl
  | cons it its ih =>
    cases it with
    | none => exact ih
    | some bytes =>
      show (t.feed bytes).through its = t
      rw [Typed.feed_of_outcome h]
      exact ih

/-- A run that detaches has looked at more of stdin. -/
theorem Typed.scanned_lt_of_detached {t : Typed} (h : t.outcome = none)
    {its : List (Option (List UInt8))} (hd : (t.over its).delivered.detached = true) :
    t.scanned.length < (t.over its).scanned.length := by
  induction its generalizing t with
  | nil =>
    have hd' : decide (t.outcome = some .detached) = true := hd
    rw [h] at hd'
    cases hd'
  | cons it its ih =>
    cases it with
    | none => exact ih (t := t.reconnect) h hd
    | some bytes =>
      have hfeed := Typed.feed_eq h bytes
      cases hp : detachAt (held detachPrefix t.prefixPending ++ bytes) with
      | none =>
        rw [hp] at hfeed
        have ho : (t.feed bytes).outcome = none := by rw [hfeed]; exact h
        have := ih ho hd
        have hs : (t.feed bytes).scanned = t.scanned ++ bytes := by rw [hfeed]
        rw [hs, List.length_append] at this
        show _ < ((t.feed bytes).over its).scanned.length
        omega
      | some i =>
        rw [hp] at hfeed
        have ho : (t.feed bytes).outcome = some .detached := by rw [hfeed]
        have hend := congrArg Delivered.scanned (Typed.over_of_outcome ho its)
        have hlt := lt_length_of_pairAt hp
        have hheld : (held detachPrefix t.prefixPending).length ≤ 1 := by
          unfold held
          split_ifs <;> simp
        rw [List.length_append] at hlt
        show _ < ((t.feed bytes).over its).delivered.scanned.length
        rw [hend, hfeed]
        show _ < (t.scanned ++ _).length
        rw [List.length_append, List.length_take]
        omega

/-! ### When a dropped prefix does not matter -/

/-- A chunk whose reading does not depend on a prefix held back before it: it does not start with
the 'd', and it completes a detach pair itself. -/
def DetachesItself (bytes : List UInt8) : Prop :=
  bytes.head? ≠ some detachKey ∧ detachAt bytes ≠ none

/-- The chunks and changes are such that no dropped prefix matters, from a state in which the
uninterrupted writer holds back `p` and the other one `q`. -/
def Safe : Bool → Bool → List (Option (List UInt8)) → Prop
  | _, _, [] => True
  | p, _, none :: its => Safe p false its
  | p, q, some bytes :: its =>
    if p = q then
      detachAt (held detachPrefix p ++ bytes) = none →
        Safe (endsHeld detachPrefix (held detachPrefix p ++ bytes))
          (endsHeld detachPrefix (held detachPrefix p ++ bytes)) its
    else if bytes = [] then Safe p q its
    else DetachesItself bytes

/-- Two writers that differ at most in a prefix only the first holds back, and in what the first
has sent more. -/
structure Ahead (u v : Typed) : Prop where
  running : u.outcome = none ∧ v.outcome = none
  scanned : u.scanned = v.scanned
  pending : v.prefixPending = u.prefixPending ∨ u.prefixPending = true ∧ v.prefixPending = false
  payload : v.payload.length ≤ u.payload.length

/-- Both hold back the same. -/
theorem Ahead.feed_same {u v : Typed} (h : Ahead u v) (hp : v.prefixPending = u.prefixPending)
    (bytes : List UInt8) :
    (∃ i, detachAt (held detachPrefix u.prefixPending ++ bytes) = some i ∧
      (u.feed bytes).outcome = some .detached ∧ (v.feed bytes).outcome = some .detached ∧
      ((u.feed bytes).delivered = (v.feed bytes).delivered ↔ u.payload = v.payload)) ∨
    (detachAt (held detachPrefix u.prefixPending ++ bytes) = none ∧
      Ahead (u.feed bytes) (v.feed bytes) ∧
      (u.feed bytes).prefixPending =
        endsHeld detachPrefix (held detachPrefix u.prefixPending ++ bytes) ∧
      (v.feed bytes).prefixPending = (u.feed bytes).prefixPending ∧
      ((u.feed bytes).payload = (v.feed bytes).payload ↔ u.payload = v.payload)) := by
  have hu := Typed.feed_eq h.running.1 bytes
  have hv := Typed.feed_eq h.running.2 bytes
  rw [hp] at hv
  cases hd : detachAt (held detachPrefix u.prefixPending ++ bytes) with
  | some i =>
    rw [hd] at hu hv
    rw [hu, hv]
    refine Or.inl ⟨i, rfl, rfl, rfl, ?_⟩
    simp [Typed.delivered, h.scanned]
  | none =>
    rw [hd] at hu hv
    rw [hu, hv]
    refine Or.inr ⟨rfl, ⟨⟨h.running.1, h.running.2⟩, ?_, Or.inl rfl, ?_⟩, rfl, rfl, ?_⟩
    · show u.scanned ++ bytes = v.scanned ++ bytes
      rw [h.scanned]
    · have := h.payload
      show (v.payload ++ _).length ≤ (u.payload ++ _).length
      rw [List.length_append, List.length_append]
      omega
    · exact List.append_left_inj _

/-- Only the first holds back a prefix, and the chunk starts with the 'd': the first detaches at
this byte, and the other does not. -/
theorem Ahead.feed_key {u v : Typed} (h : Ahead u v) (hu : u.prefixPending = true)
    (hv : v.prefixPending = false) (rest : List UInt8) (its : List (Option (List UInt8))) :
    (u.through (some (detachKey :: rest) :: its)).delivered ≠
      (v.over (some (detachKey :: rest) :: its)).delivered := by
  intro heq
  have hfeedu := Typed.feed_eq h.running.1 (detachKey :: rest)
  have hpair : detachAt (held detachPrefix u.prefixPending ++ detachKey :: rest) = some 0 := by
    rw [hu]
    exact pairAt_pair rest
  rw [hpair] at hfeedu
  have hou : (u.feed (detachKey :: rest)).outcome = some .detached := by rw [hfeedu]
  have hthrough : u.through (some (detachKey :: rest) :: its) = u.feed (detachKey :: rest) :=
    Typed.through_of_outcome hou its
  have hscan : (u.feed (detachKey :: rest)).scanned = u.scanned ++ [detachKey] := by
    rw [hfeedu, hu]
    rfl
  -- the other one has looked at more when it detaches
  have hdet : (v.over (some (detachKey :: rest) :: its)).delivered.detached = true := by
    rw [← heq, hthrough]
    show decide ((u.feed (detachKey :: rest)).outcome = some .detached) = true
    rw [hou]
    rfl
  have hlen : (v.over (some (detachKey :: rest) :: its)).scanned.length = v.scanned.length + 1 := by
    have := congrArg (fun d => d.scanned.length) heq
    rw [hthrough] at this
    show (v.over (some (detachKey :: rest) :: its)).delivered.scanned.length = _
    rw [← this]
    show (u.feed (detachKey :: rest)).scanned.length = _
    rw [hscan, List.length_append, h.scanned]
    rfl
  have hfeedv := Typed.feed_eq h.running.2 (detachKey :: rest)
  have hpairv : detachAt (held detachPrefix v.prefixPending ++ detachKey :: rest) =
      (detachAt rest).map (· + 1) := by
    rw [hv]
    exact pairAt_cons_of_ne detachPrefix_ne_detachKey.symm
  have hstep : v.over (some (detachKey :: rest) :: its) =
      (v.feed (detachKey :: rest)).over its := rfl
  rw [hstep] at hdet hlen
  rw [hpairv] at hfeedv
  cases hd : detachAt rest with
  | none =>
    rw [hd] at hfeedv
    have hov : (v.feed (detachKey :: rest)).outcome = none := by
      rw [hfeedv]
      exact h.running.2
    have hlt := Typed.scanned_lt_of_detached hov hdet
    have hs : (v.feed (detachKey :: rest)).scanned = v.scanned ++ detachKey :: rest := by
      rw [hfeedv]
      rfl
    rw [hs, List.length_append, List.length_cons] at hlt
    omega
  | some i =>
    rw [hd] at hfeedv
    have hov : (v.feed (detachKey :: rest)).outcome = some .detached := by
      rw [hfeedv]
      rfl
    have hfinal := congrArg (fun d => d.scanned.length) (Typed.over_of_outcome hov its)
    have hlt := lt_length_of_pairAt hd
    have hs : (v.feed (detachKey :: rest)).scanned =
        v.scanned ++ (detachKey :: rest).take (i + 3) := by
      rw [hfeedv, hv]
      rfl
    have hsl : ((v.feed (detachKey :: rest)).over its).scanned.length =
        (v.feed (detachKey :: rest)).scanned.length := hfinal
    rw [hsl, hs, List.length_append, List.length_take, List.length_cons] at hlen
    omega

/-- Only the first holds back a prefix, and the chunk starts with another byte. -/
theorem Ahead.feed_other {u v : Typed} (h : Ahead u v) (hu : u.prefixPending = true)
    (hv : v.prefixPending = false) {bytes : List UInt8} (hne : bytes ≠ [])
    (hhead : bytes.head? ≠ some detachKey) :
    (∃ i, detachAt bytes = some i ∧
      (u.feed bytes).outcome = some .detached ∧ (v.feed bytes).outcome = some .detached ∧
      ((u.feed bytes).delivered = (v.feed bytes).delivered ↔ u.payload = v.payload)) ∨
    (detachAt bytes = none ∧ Ahead (u.feed bytes) (v.feed bytes) ∧
      (u.feed bytes).payload ≠ (v.feed bytes).payload) := by
  have hfu := Typed.feed_eq h.running.1 bytes
  have hfv := Typed.feed_eq h.running.2 bytes
  have hpair : detachAt (detachPrefix :: bytes) = (detachAt bytes).map (· + 1) :=
    pairAt_cons_of_head hhead
  have hheld : held detachPrefix true ++ bytes = detachPrefix :: bytes := rfl
  have hfree : held detachPrefix false ++ bytes = bytes := rfl
  rw [hu, hheld, hpair] at hfu
  rw [hv, hfree] at hfv
  cases hd : detachAt bytes with
  | some i =>
    rw [hd] at hfu hfv
    rw [hfu, hfv]
    refine Or.inl ⟨i, rfl, rfl, rfl, ?_⟩
    simp [Typed.delivered, h.scanned, held]
  | none =>
    rw [hd] at hfu hfv
    have hrel : released detachPrefix (detachPrefix :: bytes) =
        detachPrefix :: released detachPrefix bytes := released_cons (Or.inr hne)
    have hend : endsHeld detachPrefix (detachPrefix :: bytes) = endsHeld detachPrefix bytes :=
      endsHeld_cons (Or.inr hne)
    have hlen := h.payload
    have hlu : (u.feed bytes).payload.length =
        u.payload.length + (released detachPrefix bytes).length + 1 := by
      rw [hfu]
      show (u.payload ++ released detachPrefix (detachPrefix :: bytes)).length = _
      rw [hrel, List.length_append, List.length_cons]
      rfl
    have hlv : (v.feed bytes).payload.length =
        v.payload.length + (released detachPrefix bytes).length := by
      rw [hfv]
      exact List.length_append
    refine Or.inr ⟨rfl, ⟨⟨?_, ?_⟩, ?_, Or.inl ?_, by omega⟩, ?_⟩
    · rw [hfu]
      exact h.running.1
    · rw [hfv]
      exact h.running.2
    · rw [hfu, hfv]
      show u.scanned ++ bytes = v.scanned ++ bytes
      rw [h.scanned]
    · rw [hfu, hfv]
      exact hend.symm
    · intro heq
      have := congrArg List.length heq
      omega

/-- **One step at a time.**  The two writers end with the same result if and only if they have sent
the same so far and no prefix dropped from here on matters. -/
theorem Ahead.delivered_eq_iff {u v : Typed} (h : Ahead u v) (its : List (Option (List UInt8))) :
    (u.through its).delivered = (v.over its).delivered ↔
      u.payload = v.payload ∧ Safe u.prefixPending v.prefixPending its := by
  induction its generalizing u v with
  | nil =>
    show u.delivered = v.delivered ↔ _ ∧ True
    simp [Typed.delivered, h.scanned, h.running.1, h.running.2]
  | cons it its ih =>
    cases it with
    | none =>
      have hreset : Ahead u v.reconnect := by
        refine ⟨h.running, h.scanned, ?_, h.payload⟩
        cases hp : u.prefixPending with
        | false => exact Or.inl rfl
        | true => exact Or.inr ⟨rfl, rfl⟩
      exact ih hreset
    | some bytes =>
      show ((u.feed bytes).through its).delivered = ((v.feed bytes).over its).delivered ↔ _
      by_cases hpq : u.prefixPending = v.prefixPending
      · rw [Safe, if_pos hpq]
        rcases h.feed_same hpq.symm bytes with
          ⟨i, hd, hou, hov, hiff⟩ | ⟨hd, hnext, hpend, hsame, hiff⟩
        · rw [Typed.through_of_outcome hou, Typed.over_of_outcome hov, hiff, hd]
          simp
        · rw [ih hnext, hiff, hsame, hpend, hd]
          simp
      · have hu : u.prefixPending = true ∧ v.prefixPending = false :=
          h.pending.resolve_left fun he => hpq he.symm
        obtain ⟨hu, hv⟩ := hu
        rw [Safe, if_neg hpq]
        by_cases hnil : bytes = []
        · rw [if_pos hnil, hnil, Typed.feed_nil, Typed.feed_nil]
          exact ih h
        · rw [if_neg hnil]
          by_cases hhead : bytes.head? = some detachKey
          · obtain ⟨rest, rfl⟩ : ∃ rest, bytes = detachKey :: rest := by
              cases bytes with
              | nil => cases hhead
              | cons b rest => exact ⟨rest, by simpa using hhead⟩
            have hne := h.feed_key hu hv rest its
            constructor
            · intro heq
              exact absurd heq hne
            · rintro ⟨-, hself, -⟩
              exact absurd hhead hself
          · rcases h.feed_other hu hv hnil hhead with
              ⟨i, hd, hou, hov, hiff⟩ | ⟨hd, hnext, hne⟩
            · rw [Typed.through_of_outcome hou, Typed.over_of_outcome hov, hiff]
              simp [DetachesItself, hhead, hd]
            · rw [ih hnext]
              constructor
              · rintro ⟨heq, -⟩
                exact absurd heq hne
              · rintro ⟨-, -, hself⟩
                exact absurd hd hself

/-! ### The condition at each connection change -/

/-- If a prefix is held back after `before`, the next bytes, if any more come, arrive in a chunk
that detaches by itself. -/
def PrefixNotMissed (before after : List (List UInt8)) : Prop :=
  detachAt before.flatten = none → before.flatten.getLast? = some detachPrefix →
    ∀ bytes, after.find? (fun bytes => !bytes.isEmpty) = some bytes → DetachesItself bytes

/-- While both hold back the same, nothing can go wrong up to the next change. -/
theorem safe_same {S : List UInt8} (hS : detachAt S = none) (cs : List (List UInt8))
    (its : List (Option (List UInt8))) :
    Safe (endsHeld detachPrefix S) (endsHeld detachPrefix S) (cs.map some ++ none :: its) ↔
      (detachAt (S ++ cs.flatten) = none →
        Safe (endsHeld detachPrefix (S ++ cs.flatten)) false its) := by
  induction cs generalizing S with
  | nil =>
    rw [List.flatten_nil, List.append_nil]
    exact ⟨fun h _ => h, fun h => h hS⟩
  | cons bytes cs ih =>
    show Safe _ _ (some bytes :: (cs.map some ++ none :: its)) ↔ _
    rw [Safe, if_pos rfl, ← endsHeld_append_held, List.flatten_cons, ← List.append_assoc]
    have hnone : detachAt (held detachPrefix (endsHeld detachPrefix S) ++ bytes) = none ↔
        detachAt (S ++ bytes) = none := by
      unfold detachAt
      rw [pairAt_append_held detachPrefix_ne_detachKey hS, Option.map_eq_none_iff]
    rw [hnone]
    constructor
    · intro h hall
      have hfst : detachAt (S ++ bytes) = none := pairAt_eq_none_of_append hall
      exact (ih hfst).1 (h hfst) hall
    · intro h hfst
      exact (ih hfst).2 h

/-- A dropped prefix is decided by the next chunk that is not empty. -/
theorem safe_lost (cs : List (List UInt8)) (its : List (Option (List UInt8))) :
    Safe true false (cs.map some ++ none :: its) ↔
      match cs.find? (fun bytes => !bytes.isEmpty) with
      | none => Safe true false its
      | some bytes => DetachesItself bytes := by
  induction cs with
  | nil => exact Iff.rfl
  | cons bytes cs ih =>
    show Safe true false (some bytes :: (cs.map some ++ none :: its)) ↔ _
    rw [Safe, if_neg (by decide)]
    cases bytes with
    | nil =>
      rw [if_pos rfl, ih]
      rfl
    | cons b rest =>
      rw [if_neg (List.cons_ne_nil b rest)]
      rfl

/-- A chunk that completes a pair leaves none of the streams it is part of without one. -/
theorem detachAt_ne_none_of_mem {cs : List (List UInt8)} {bytes : List UInt8} (hmem : bytes ∈ cs)
    (h : detachAt bytes ≠ none) (S : List UInt8) : detachAt (S ++ cs.flatten) ≠ none := by
  obtain ⟨a, b, rfl⟩ := List.append_of_mem hmem
  intro hnone
  rw [List.flatten_append, List.flatten_cons, ← List.append_assoc] at hnone
  exact h (pairAt_eq_none_of_append (pairAt_eq_none_of_append_right hnone))

/-- Behind a first pair no change matters. -/
theorem prefixNotMissed_of_detached {T : List UInt8} (h : detachAt T ≠ none)
    (before after : List (List UInt8)) : PrefixNotMissed (T :: before) after := by
  intro hnone
  rw [List.flatten_cons] at hnone
  exact absurd (pairAt_eq_none_of_append hnone) h

/-- The first change, and the later ones seen from behind the first connection. -/
theorem prefixNotMissed_cons_iff (S : List UInt8) (cs : List (List UInt8))
    (css : List (List (List UInt8))) :
    (∀ a b, cs :: css = a ++ b → PrefixNotMissed (S :: a.flatten) b.flatten) ↔
      PrefixNotMissed [S] (cs ++ css.flatten) ∧
        ∀ a b, css = a ++ b → PrefixNotMissed ((S ++ cs.flatten) :: a.flatten) b.flatten := by
  have hlater : ∀ (a b : List (List (List UInt8))),
      PrefixNotMissed (S :: (cs :: a).flatten) b.flatten ↔
        PrefixNotMissed ((S ++ cs.flatten) :: a.flatten) b.flatten := by
    intro a b
    unfold PrefixNotMissed
    rw [List.flatten_cons, List.flatten_cons, List.flatten_cons, List.flatten_append,
      List.append_assoc]
  constructor
  · intro h
    refine ⟨h [] (cs :: css) rfl, ?_⟩
    intro a b hab
    rw [← hlater]
    exact h (cs :: a) b (by rw [hab]; rfl)
  · rintro ⟨hfirst, hrest⟩ a b hab
    cases a with
    | nil =>
      rw [← show cs :: css = b from hab]
      exact hfirst
    | cons c a =>
      obtain ⟨hc, htail⟩ := List.cons.inj hab
      rw [← hc, hlater]
      exact hrest a b htail

theorem safe_items {S : List UInt8} (hS : detachAt S = none) (css : List (List (List UInt8))) :
    Safe (endsHeld detachPrefix S) false (items css) ↔
      ∀ a b, css = a ++ b → PrefixNotMissed (S :: a.flatten) b.flatten := by
  induction css generalizing S with
  | nil =>
    constructor
    · intro _ a b hab _ _ bytes hfind
      obtain ⟨-, rfl⟩ := List.append_eq_nil_iff.1 hab.symm
      cases hfind
    · intro _
      trivial
  | cons cs css ih =>
    have hitems : items (cs :: css) = cs.map some ++ none :: items css := by
      show (cs.map some ++ [none]) ++ items css = _
      rw [List.append_assoc]
      rfl
    have hflat : [S].flatten = S := List.flatten_singleton
    rw [hitems, prefixNotMissed_cons_iff]
    cases hheld : endsHeld detachPrefix S with
    | false =>
      have hsame := safe_same hS cs (items css)
      rw [hheld] at hsame
      rw [hsame]
      have hfirst : PrefixNotMissed [S] (cs ++ css.flatten) := by
        intro _ hlast
        rw [hflat] at hlast
        simp [endsHeld, hlast] at hheld
      constructor
      · intro h
        refine ⟨hfirst, ?_⟩
        by_cases hn : detachAt (S ++ cs.flatten) = none
        · exact fun a b hab => (ih hn).1 (h hn) a b hab
        · exact fun a b _ => prefixNotMissed_of_detached hn _ _
      · rintro ⟨-, hrest⟩ hn
        exact (ih hn).2 hrest
    | true =>
      have hlast : S.getLast? = some detachPrefix := by simpa [endsHeld] using hheld
      rw [safe_lost]
      have hfirst : PrefixNotMissed [S] (cs ++ css.flatten) ↔
          ∀ bytes, (cs ++ css.flatten).find? (fun bytes => !bytes.isEmpty) = some bytes →
            DetachesItself bytes := by
        unfold PrefixNotMissed
        rw [hflat]
        exact ⟨fun h => h hS hlast, fun h _ _ => h⟩
      rw [hfirst, List.find?_append]
      cases hfind : cs.find? (fun bytes => !bytes.isEmpty) with
      | none =>
        -- nothing came in the first connection
        have hnil : cs.flatten = [] := by
          rw [List.flatten_eq_nil_iff]
          intro bytes hmem
          simpa using List.find?_eq_none.1 hfind bytes hmem
        have hrec := ih hS
        rw [hheld] at hrec
        rw [hnil, List.append_nil]
        dsimp only
        rw [hrec]
        constructor
        · intro h
          refine ⟨?_, h⟩
          intro bytes hb
          exact h [] css rfl (by simpa using hS) (by simpa using hlast) bytes (by simpa using hb)
        · exact fun h => h.2
      | some bytes =>
        dsimp only
        constructor
        · intro h
          refine ⟨?_, ?_⟩
          · intro bytes' hb
            have heq : bytes = bytes' := by simpa using hb
            rw [← heq]
            exact h
          · have hmem := List.mem_of_find?_eq_some hfind
            exact fun a b _ =>
              prefixNotMissed_of_detached (detachAt_ne_none_of_mem hmem h.2 S) _ _
        · intro h
          exact h.1 bytes (by simp)

/-! ### The writers of the model -/

/-- Typing on from what has already been sent and looked at. -/
def Typed.behind (payload scanned : List UInt8) (t : Typed) : Typed :=
  { t with payload := payload ++ t.payload, scanned := scanned ++ t.scanned }

theorem Typed.feed_behind (payload scanned : List UInt8) (t : Typed) (bytes : List UInt8) :
    (t.behind payload scanned).feed bytes = (t.feed bytes).behind payload scanned := by
  obtain ⟨p, s, pending, outcome⟩ := t
  cases outcome with
  | some o => rfl
  | none =>
    unfold Typed.feed Typed.behind
    dsimp only
    cases scanStdin pending [] bytes with
    | detached unread => simp
    | done out prefixPending => simp

theorem Typed.over_behind (payload scanned : List UInt8) (t : Typed)
    (its : List (Option (List UInt8))) :
    (t.behind payload scanned).over its = (t.over its).behind payload scanned := by
  induction its generalizing t with
  | nil => rfl
  | cons it its ih =>
    cases it with
    | none => exact ih t.reconnect
    | some bytes =>
      show ((t.behind payload scanned).feed bytes).over its = _
      rw [Typed.feed_behind]
      exact ih (t.feed bytes)

theorem Typed.over_append (t : Typed) (its its' : List (Option (List UInt8))) :
    t.over (its ++ its') = (t.over its).over its' := by
  induction its generalizing t with
  | nil => rfl
  | cons it its ih =>
    cases it with
    | none => exact ih t.reconnect
    | some bytes => exact ih (t.feed bytes)

theorem Typed.over_map_some (t : Typed) (cs : List (List UInt8)) :
    t.over (cs.map some) = cs.foldl Typed.feed t := by
  induction cs generalizing t with
  | nil => rfl
  | cons bytes cs ih => exact ih (t.feed bytes)

theorem Typed.through_items (t : Typed) (css : List (List (List UInt8))) :
    t.through (items css) = css.flatten.foldl Typed.feed t := by
  have hone : ∀ (t : Typed) (cs : List (List UInt8)) (its : List (Option (List UInt8))),
      t.through (cs.map some ++ none :: its) = (cs.foldl Typed.feed t).through its := by
    intro t cs its
    induction cs generalizing t with
    | nil => rfl
    | cons bytes cs ih => exact ih (t.feed bytes)
  induction css generalizing t with
  | nil => rfl
  | cons cs css ih =>
    rw [List.flatten_cons, List.foldl_append, ← ih]
    show t.through ((cs.map some ++ [none]) ++ items css) = _
    rw [List.append_assoc]
    exact hone t cs (items css)

/-- A failing write between two chunks leaves what stdin has done. -/
theorem typed_failure {w : ClientWriter} {e : WriterEvent} (h : e.FailsIdle) :
    dataPayload (clientWriterStep w e).sent = dataPayload w.sent ∧
      (clientWriterStep w e).scanned = w.scanned ∧
      ((clientWriterStep w e).outcome = some .detached ↔ w.outcome = some .detached) := by
  unfold clientWriterStep
  cases ho : w.outcome with
  | some o =>
    refine ⟨rfl, rfl, ?_⟩
    rw [ho]
  | none =>
    cases e with
    | stdin maybe ok => exact absurd h id
    | winch size ok =>
      obtain ⟨hs, rfl⟩ := h
      obtain ⟨⟨cols, rows⟩, rfl⟩ := Option.isSome_iff_exists.1 hs
      simp [ClientWriter.write]
    | pong p ok =>
      cases p with
      | none => simp
      | some u =>
        have hok : ok = false := h rfl
        rw [hok]
        simp [ClientWriter.write]
    | tick off okAck okPing =>
      cases okAck with
      | false => simp [ClientWriter.write]
      | true =>
        have hok : okPing = false := h rfl
        rw [hok]
        simp [ClientWriter.write, dataPayload]

/-- A connection feeds its chunks to a new writer. -/
theorem WriterRun.after_eq (r : WriterRun) :
    let t := r.chunks.foldl Typed.feed Typed.new
    dataPayload r.after.sent = t.payload ∧ r.after.scanned = t.scanned ∧
      (r.after.outcome = some .detached ↔ t.outcome = some .detached) := by
  intro t
  have htyped : (ClientWriter.new.after r.events).typed = t :=
    typed_after ClientWriter.new r.succeeds
  have hafter : r.after = (ClientWriter.new.after r.events).after r.failure.toList :=
    List.foldl_append
  rw [hafter, ← htyped]
  cases hf : r.failure with
  | none => exact ⟨rfl, rfl, Iff.rfl⟩
  | some e => exact typed_failure (r.fails e hf)

/-- A run over chunks ends in no outcome but `Detached`. -/
theorem outcome_foldl_feed {t : Typed} (h : t.outcome = none ∨ t.outcome = some .detached)
    (cs : List (List UInt8)) : (cs.foldl Typed.feed t).outcome = none ∨
      (cs.foldl Typed.feed t).outcome = some .detached := by
  induction cs generalizing t with
  | nil => exact h
  | cons bytes cs ih =>
    apply ih
    rcases h with h | h
    · rw [Typed.feed_eq h]
      cases detachAt (held detachPrefix t.prefixPending ++ bytes) with
      | none => exact Or.inl h
      | some i => exact Or.inr rfl
    · rw [Typed.feed_of_outcome h]
      exact Or.inr h

theorem overConnections_eq (rs : List WriterRun) :
    overConnections rs = (Typed.new.over (items (rs.map WriterRun.chunks))).delivered := by
  induction rs with
  | nil => rfl
  | cons r rs ih =>
    obtain ⟨hp, hs, hd⟩ := r.after_eq
    have hitems : items ((r :: rs).map WriterRun.chunks) =
        r.chunks.map some ++ none :: items (rs.map WriterRun.chunks) := by
      show (r.chunks.map some ++ [none]) ++ items (rs.map WriterRun.chunks) = _
      rw [List.append_assoc]
      rfl
    rw [hitems, Typed.over_append, Typed.over_map_some]
    unfold overConnections
    dsimp only
    rw [hp, hs, ih]
    generalize ht : r.chunks.foldl Typed.feed Typed.new = t at hd
    have hout : t.outcome = none ∨ t.outcome = some .detached := by
      rw [← ht]
      exact outcome_foldl_feed (Or.inl rfl) r.chunks
    rcases hout with hnone | hdet
    · rw [if_neg (by rw [hd, hnone]; decide)]
      show _ = (t.reconnect.over (items (rs.map WriterRun.chunks))).delivered
      have hbehind : t.reconnect = Typed.new.behind t.payload t.scanned := by
        simp [Typed.reconnect, Typed.behind, Typed.new, hnone]
      rw [hbehind, Typed.over_behind]
      rfl
    · rw [if_pos (hd.2 hdet), Typed.over_of_outcome hdet]
      simp [Typed.delivered, hdet]

theorem uninterrupted_eq (rs : List WriterRun) :
    uninterrupted rs = (Typed.new.through (items (rs.map WriterRun.chunks))).delivered := by
  have hflat : (rs.map WriterRun.chunks).flatten = rs.flatMap WriterRun.chunks := rfl
  rw [Typed.through_items, hflat]
  unfold uninterrupted
  generalize rs.flatMap WriterRun.chunks = cs
  have hall : ∀ e ∈ cs.map fun bytes => WriterEvent.stdin (some bytes) true, e.Succeeds := by
    intro e he
    obtain ⟨bytes, -, rfl⟩ := List.mem_map.1 he
    exact ⟨rfl, rfl⟩
  have hchunks : chunks (cs.map fun bytes => WriterEvent.stdin (some bytes) true) = cs := by
    unfold chunks
    rw [List.filterMap_map]
    exact List.filterMap_some
  have htyped := typed_after ClientWriter.new hall
  rw [hchunks] at htyped
  rw [← show ClientWriter.new.typed = Typed.new from rfl, ← htyped]
  rfl

/-- **A detach sequence over a reconnection.**  However the chunks of stdin are spread over
successive connections that end between chunks, the bytes sent and the point where the client
detaches are those of one uninterrupted writer if and only if, at every connection change with a
Ctrl-\ held back and no detach before it, the next bytes, if any more come, arrive in a chunk that
does not start with 'd' and completes a detach sequence itself. -/
theorem over_eq_uninterrupted_iff (rs : List WriterRun) :
    overConnections rs = uninterrupted rs ↔
      ∀ a b, rs = a ++ b →
        PrefixNotMissed (a.flatMap WriterRun.chunks) (b.flatMap WriterRun.chunks) := by
  have hahead : Ahead Typed.new Typed.new :=
    ⟨⟨rfl, rfl⟩, rfl, Or.inl rfl, Nat.le_refl _⟩
  have hiff := hahead.delivered_eq_iff (items (rs.map WriterRun.chunks))
  rw [← overConnections_eq, ← uninterrupted_eq] at hiff
  rw [eq_comm, hiff]
  have hsafe := safe_items (S := []) rfl (rs.map WriterRun.chunks)
  have hflat : ∀ (a : List WriterRun),
      ([] :: (a.map WriterRun.chunks).flatten : List (List UInt8)) =
        [] :: a.flatMap WriterRun.chunks := fun a => rfl
  constructor
  · rintro ⟨-, hs⟩ a b rfl
    have := hsafe.1 hs (a.map WriterRun.chunks) (b.map WriterRun.chunks) List.map_append
    rw [hflat] at this
    exact this
  · intro h
    refine ⟨rfl, hsafe.2 ?_⟩
    intro a b hab
    obtain ⟨a', b', hrs, rfl, rfl⟩ := List.map_eq_append_iff.1 hab
    exact h a' b' hrs

/-- A connection whose chunks are `cs`, ended by the reader. -/
def WriterRun.ofChunks (cs : List (List UInt8)) : WriterRun where
  events := cs.map fun bytes => .stdin (some bytes) true
  failure := none
  succeeds := by
    intro e he
    obtain ⟨bytes, -, rfl⟩ := List.mem_map.1 he
    exact ⟨rfl, rfl⟩
  fails := by
    intro e he
    cases he

/-- A Ctrl-\, a reconnection, a 'd': one writer would have detached, and the two send the 'd'. -/
theorem reconnect_drops_prefix :
    overConnections [.ofChunks [[detachPrefix]], .ofChunks [[detachKey]]] =
        ⟨[detachKey], [detachPrefix, detachKey], false⟩ ∧
      uninterrupted [.ofChunks [[detachPrefix]], .ofChunks [[detachKey]]] =
        ⟨[], [detachPrefix, detachKey], true⟩ ∧
      ¬ overConnections [.ofChunks [[detachPrefix]], .ofChunks [[detachKey]]] =
        uninterrupted [.ofChunks [[detachPrefix]], .ofChunks [[detachKey]]] := by
  refine ⟨by decide, by decide, by decide⟩

end Thther
