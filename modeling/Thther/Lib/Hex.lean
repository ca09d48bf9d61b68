import Mathlib.Data.List.Basic

/-!
# Hexadecimal digits

Bytes as pairs of lower-case digits, and the digits of either case read back.

* `decode_encode`: the round trip.
-/

namespace Hex

/-- The digit of a number below 16. -/
def digit (d : ℕ) : UInt8 := if d < 10 then UInt8.ofNat (48 + d) else UInt8.ofNat (87 + d)

/-- The number of a digit. -/
def value (c : UInt8) : Option ℕ :=
  if 48 ≤ c ∧ c ≤ 57 then some (c.toNat - 48)
  else if 97 ≤ c ∧ c ≤ 102 then some (c.toNat - 87)
  else if 65 ≤ c ∧ c ≤ 70 then some (c.toNat - 55)
  else none

/-- Two digits for each byte. -/
def encode (bytes : List UInt8) : List UInt8 :=
  bytes.flatMap fun b => [digit (b.toNat / 16), digit (b.toNat % 16)]

inductive DecodeError
  | oddLength
  | invalidDigit (c : UInt8) (index : ℕ)
  deriving DecidableEq

/-- The bytes of the digits from `index` on. -/
def decodePairs : ℕ → List UInt8 → Except DecodeError (List UInt8)
  | _, [] => .ok []
  | _, [_] => .error .oddLength
  | index, c :: d :: cs =>
    match value c, value d with
    | none, _ => .error (.invalidDigit c index)
    | some _, none => .error (.invalidDigit d (index + 1))
    | some hi, some lo => (decodePairs (index + 2) cs).map (UInt8.ofNat (hi * 16 + lo) :: ·)

/-- The length is checked first. -/
def decode (cs : List UInt8) : Except DecodeError (List UInt8) :=
  if cs.length % 2 ≠ 0 then .error .oddLength else decodePairs 0 cs

theorem value_digit {d : ℕ} (h : d < 16) : value (digit d) = some d := by
  have hall : ∀ d < 16, value (digit d) = some d := by decide
  exact hall d h

theorem length_encode (bytes : List UInt8) : (encode bytes).length = 2 * bytes.length := by
  induction bytes with
  | nil => rfl
  | cons b bytes ih =>
    rw [encode, List.flatMap_cons, List.length_append, ← encode, ih, List.length_cons]
    simp
    omega

theorem decodePairs_encode (index : ℕ) (bytes : List UInt8) :
    decodePairs index (encode bytes) = .ok bytes := by
  induction bytes generalizing index with
  | nil => rfl
  | cons b bytes ih =>
    have hlt := b.toNat_lt
    have hb : UInt8.ofNat (b.toNat / 16 * 16 + b.toNat % 16) = b := by
      rw [Nat.div_add_mod', UInt8.ofNat_toNat]
    have hcons : encode (b :: bytes) =
        digit (b.toNat / 16) :: digit (b.toNat % 16) :: encode bytes := rfl
    rw [hcons, decodePairs, value_digit (by omega), value_digit (by omega)]
    simp only [ih, hb]
    rfl

/-- **Round trip.** -/
theorem decode_encode (bytes : List UInt8) : decode (encode bytes) = .ok bytes := by
  have heven : (encode bytes).length % 2 = 0 := by
    rw [length_encode]
    omega
  rw [decode, if_neg (by simpa using heven), decodePairs_encode]

end Hex
