import Mathlib.Data.List.Basic
import Mathlib.Data.Nat.Basic

/-!
# A two-element escape sequence in a stream

A stream is scanned for the first `p` that is immediately followed by `k`.  A scanner that meets
`p` at the end of what it has cannot tell yet, and holds it back.

* `pairAt p k u`: the position of the first pair;
* `released p u`, `endsHeld p u`: what may be passed on of a stream without a pair, and whether a
  `p` is held back at its end;
* `pairAt_append_held`, `released_append_held`: scanning on from the held element gives what
  scanning the whole stream gives, so it does not matter where a stream is cut.
-/

namespace Escape

variable {α : Type*} [DecidableEq α] (p k : α)

/-- The position of the first `p` that is immediately followed by `k`. -/
def pairAt : List α → Option ℕ
  | [] => none
  | b :: rest =>
    if b = p ∧ rest.head? = some k then some 0 else (pairAt rest).map (· + 1)

/-- A stream ends with an element to be held back. -/
def endsHeld (u : List α) : Bool := u.getLast? = some p

/-- The stream without the element held back. -/
def released (u : List α) : List α := if endsHeld p u then u.dropLast else u

/-- What is held back. -/
def held (b : Bool) : List α := if b then [p] else []

variable {p k}

/-! ### The element held back -/

@[simp] theorem endsHeld_nil : endsHeld p ([] : List α) = false := rfl

@[simp] theorem released_nil : released p ([] : List α) = [] := rfl

@[simp] theorem released_singleton : released p [p] = [] := by
  simp [released, endsHeld]

theorem endsHeld_append {a b : List α} (hb : b ≠ []) : endsHeld p (a ++ b) = endsHeld p b := by
  unfold endsHeld
  rw [List.getLast?_append_of_ne_nil a hb]

theorem released_append {a b : List α} (hb : b ≠ []) :
    released p (a ++ b) = a ++ released p b := by
  unfold released
  rw [endsHeld_append hb]
  split_ifs
  · exact List.dropLast_append_of_ne_nil hb
  · rfl

theorem endsHeld_cons {b : α} {rest : List α} (h : b ≠ p ∨ rest ≠ []) :
    endsHeld p (b :: rest) = endsHeld p rest := by
  cases rest with
  | nil =>
    have hb : b ≠ p := h.resolve_right fun h => h rfl
    simp [endsHeld, hb]
  | cons c rest => exact endsHeld_append (a := [b]) (List.cons_ne_nil c rest)

theorem released_cons {b : α} {rest : List α} (h : b ≠ p ∨ rest ≠ []) :
    released p (b :: rest) = b :: released p rest := by
  unfold released
  rw [endsHeld_cons h]
  split_ifs with he
  · cases rest with
    | nil => cases he
    | cons c rest => rfl
  · rfl

theorem released_append_held (u : List α) : released p u ++ held p (endsHeld p u) = u := by
  unfold released held
  split_ifs with h
  · exact List.dropLast_append_getLast? p (by simpa [endsHeld] using h)
  · exact List.append_nil u

/-! ### The first pair -/

theorem pairAt_cons_of_ne {b : α} {rest : List α} (h : b ≠ p) :
    pairAt p k (b :: rest) = (pairAt p k rest).map (· + 1) :=
  if_neg fun hc => h hc.1

theorem pairAt_cons_of_head {b : α} {rest : List α} (h : rest.head? ≠ some k) :
    pairAt p k (b :: rest) = (pairAt p k rest).map (· + 1) :=
  if_neg fun hc => h hc.2

theorem pairAt_pair (rest : List α) : pairAt p k (p :: k :: rest) = some 0 :=
  if_pos ⟨rfl, rfl⟩

@[simp] theorem pairAt_singleton (b : α) : pairAt p k [b] = none := by
  rw [pairAt_cons_of_head (by simp)]
  rfl

theorem lt_length_of_pairAt {u : List α} {i : ℕ} (h : pairAt p k u = some i) :
    i + 1 < u.length := by
  induction u generalizing i with
  | nil => cases h
  | cons b rest ih =>
    unfold pairAt at h
    split_ifs at h with hc
    · cases h
      cases rest with
      | nil => cases hc.2
      | cons c rest => simp
    · obtain ⟨j, hj, rfl⟩ := Option.map_eq_some_iff.1 h
      have := ih hj
      rw [List.length_cons]
      omega

/-- The first pair, and what stands before it. -/
theorem take_of_pairAt {u : List α} {i : ℕ} (h : pairAt p k u = some i) :
    u.take (i + 2) = u.take i ++ [p, k] := by
  induction u generalizing i with
  | nil => cases h
  | cons b rest ih =>
    unfold pairAt at h
    split_ifs at h with hc
    · cases h
      obtain ⟨rfl, hk⟩ := hc
      cases rest with
      | nil => cases hk
      | cons c rest =>
        have hck : c = k := by simpa using hk
        rw [hck]
        rfl
    · obtain ⟨j, hj, rfl⟩ := Option.map_eq_some_iff.1 h
      rw [List.take_succ_cons, List.take_succ_cons, ih hj]
      rfl

/-- A stream that ends inside its first pair ends with an element held back. -/
theorem endsHeld_take_of_pairAt {u : List α} {i : ℕ} (h : pairAt p k u = some i) :
    endsHeld p (u.take (i + 1)) = true := by
  have hlt := lt_length_of_pairAt h
  have hlen : (u.take i).length = i := by
    rw [List.length_take]
    omega
  have htake : u.take (i + 1) = u.take i ++ [p] := by
    have hcut := congrArg (List.take (i + 1)) (take_of_pairAt h)
    rw [List.take_take, Nat.min_eq_left (Nat.le_succ _), List.take_append, hlen,
      Nat.add_sub_cancel_left, List.take_of_length_le (l := u.take i) (by omega)] at hcut
    exact hcut
  rw [htake, endsHeld_append (List.cons_ne_nil _ _)]
  simp [endsHeld]

/-- What may be passed on of a piece that ends at `a`, before the end of the first pair, is
everything before the pair if and only if the piece takes in the `p` of the pair, or stops right
before it without an element to be held back. -/
theorem released_take_eq_iff {u : List α} {i a : ℕ} (h : pairAt p k u = some i) (ha : a ≤ i + 1) :
    released p (u.take a) = u.take i ↔ a = i + 1 ∨ a = i ∧ (u.take i).getLast? ≠ some p := by
  have hlt := lt_length_of_pairAt h
  by_cases hend : endsHeld p (u.take a) = true
  · have hpos : 0 < a := by
      rcases Nat.eq_zero_or_pos a with rfl | hpos
      · cases hend
      · exact hpos
    have hrel : released p (u.take a) = u.take (a - 1) := by
      unfold released
      rw [if_pos hend, List.dropLast_take (by omega)]
    rw [hrel]
    constructor
    · intro heq
      have hlen := congrArg List.length heq
      rw [List.length_take, List.length_take] at hlen
      exact Or.inl (by omega)
    · rintro (rfl | ⟨rfl, hne⟩)
      · rw [Nat.add_sub_cancel]
      · exact absurd (by simpa [endsHeld] using hend) hne
  · have hrel : released p (u.take a) = u.take a := if_neg hend
    rw [hrel]
    constructor
    · intro heq
      have hlen := congrArg List.length heq
      rw [List.length_take, List.length_take] at hlen
      obtain rfl : a = i := by omega
      exact Or.inr ⟨rfl, by simpa [endsHeld] using hend⟩
    · rintro (rfl | ⟨rfl, -⟩)
      · exact absurd (endsHeld_take_of_pairAt h) hend
      · rfl

/-- A pair stays the first one when the stream goes on. -/
theorem pairAt_append_of_some {a : List α} {i : ℕ} (h : pairAt p k a = some i) (b : List α) :
    pairAt p k (a ++ b) = some i := by
  induction a generalizing i with
  | nil => cases h
  | cons c rest ih =>
    have hne : rest ≠ [] := by
      intro hnil
      have := lt_length_of_pairAt h
      rw [hnil, List.length_singleton] at this
      omega
    have hhead : (rest ++ b).head? = rest.head? := List.head?_append_of_ne_nil rest hne
    rw [List.cons_append]
    unfold pairAt at h ⊢
    rw [hhead]
    split_ifs at h ⊢ with hc
    · exact h
    · obtain ⟨j, hj, rfl⟩ := Option.map_eq_some_iff.1 h
      rw [ih hj]
      rfl

theorem pairAt_eq_none_of_append {a b : List α} (h : pairAt p k (a ++ b) = none) :
    pairAt p k a = none := by
  cases ha : pairAt p k a with
  | none => rfl
  | some i => rw [pairAt_append_of_some ha] at h; cases h

theorem pairAt_eq_none_of_append_right {a b : List α} (h : pairAt p k (a ++ b) = none) :
    pairAt p k b = none := by
  induction a with
  | nil => exact h
  | cons c rest ih =>
    rw [List.cons_append] at h
    unfold pairAt at h
    split_ifs at h
    exact ih (Option.map_eq_none_iff.1 h)

/-- Without a pair before or across a border, the first pair is the first one behind it. -/
theorem pairAt_append_of_none {a b : List α} (ha : pairAt p k a = none)
    (hborder : endsHeld p a = true → b.head? ≠ some k) :
    pairAt p k (a ++ b) = (pairAt p k b).map (a.length + ·) := by
  induction a with
  | nil => simp
  | cons c rest ih =>
    have hrest : pairAt p k rest = none := by
      unfold pairAt at ha
      split_ifs at ha
      simpa using ha
    have hno : ¬ (c = p ∧ (rest ++ b).head? = some k) := by
      rintro ⟨rfl, hk⟩
      cases rest with
      | nil => exact hborder (by simp [endsHeld]) hk
      | cons d rest =>
        have hd : d = k := by simpa using hk
        rw [hd, pairAt_pair] at ha
        cases ha
    have hend : endsHeld p rest = true → b.head? ≠ some k := by
      intro he
      apply hborder
      cases rest with
      | nil => cases he
      | cons d rest => rwa [endsHeld_cons (Or.inr (List.cons_ne_nil d rest))]
    rw [List.cons_append, pairAt, if_neg hno, ih hrest hend, Option.map_map, List.length_cons]
    congr 1
    funext i
    show rest.length + i + 1 = rest.length + 1 + i
    omega

/-! ### A stream cut in two -/

/-- Scanning on from the held element finds the first pair of the whole stream. -/
theorem pairAt_append_held (hpk : p ≠ k) {u : List α} (hu : pairAt p k u = none) (v : List α) :
    pairAt p k (u ++ v) =
      (pairAt p k (held p (endsHeld p u) ++ v)).map ((released p u).length + ·) := by
  have hsplit := released_append_held (p := p) u
  have hnone : pairAt p k (released p u) = none := by
    rw [← hsplit] at hu
    exact pairAt_eq_none_of_append hu
  conv_lhs => rw [← hsplit, List.append_assoc]
  apply pairAt_append_of_none hnone
  intro hend
  by_cases hheld : endsHeld p u = true
  · rw [hheld]
    simpa [held] using hpk
  · have hsame : released p u = u := if_neg hheld
    rw [hsame] at hend
    exact absurd hend hheld

/-- Scanning on from the held element releases what the whole stream releases. -/
theorem released_append_held_append (u v : List α) :
    released p (u ++ v) = released p u ++ released p (held p (endsHeld p u) ++ v) := by
  conv_lhs => rw [← released_append_held (p := p) u, List.append_assoc]
  by_cases hnil : held p (endsHeld p u) ++ v = []
  · have hu : endsHeld p u = false := by
      cases h : endsHeld p u with
      | false => rfl
      | true => rw [h] at hnil; cases hnil
    have hsame : released p u = u := if_neg (by simp [hu])
    rw [hnil, List.append_nil, released_nil, List.append_nil, hsame]
    exact hsame
  · exact released_append hnil

theorem endsHeld_append_held (u v : List α) :
    endsHeld p (u ++ v) = endsHeld p (held p (endsHeld p u) ++ v) := by
  conv_lhs => rw [← released_append_held (p := p) u, List.append_assoc]
  by_cases hnil : held p (endsHeld p u) ++ v = []
  · have hu : endsHeld p u = false := by
      cases h : endsHeld p u with
      | false => rfl
      | true => rw [h] at hnil; cases hnil
    have hsame : released p u = u := if_neg (by simp [hu])
    rw [hnil, List.append_nil, hsame]
    exact hu
  · exact endsHeld_append hnil

end Escape
