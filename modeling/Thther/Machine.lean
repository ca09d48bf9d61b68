import Thther.Lib.ByteOrder
import Mathlib.Tactic.Common

/-!
# The machine integers of the source

`u16`, `u32` and `u64` are Lean's fixed-width types, with wrapping arithmetic; `usize` lengths
are natural numbers.  This module holds the standard-library operations the source uses on them:
`checked_add`, `saturating_sub`, the byte conversions and byte-string literals.
-/

namespace Thther

/-- `u64::checked_add`, with the addend a length. -/
def checkedAdd (a : UInt64) (n : ℕ) : Option UInt64 :=
  if a.toNat + n < 2 ^ 64 then some (UInt64.ofNat (a.toNat + n)) else none

theorem checkedAdd_eq_some {a b : UInt64} {n : ℕ} :
    checkedAdd a n = some b ↔ b.toNat = a.toNat + n := by
  have hb := b.toNat_lt
  unfold checkedAdd
  split_ifs with h
  · rw [Option.some.injEq, ← UInt64.toNat_inj, UInt64.toNat_ofNat', Nat.mod_eq_of_lt h]
    exact eq_comm
  · simp only [false_iff]
    omega

theorem checkedAdd_eq_none {a : UInt64} {n : ℕ} : checkedAdd a n = none ↔ 2 ^ 64 ≤ a.toNat + n := by
  unfold checkedAdd
  split_ifs with h
  · simp only [false_iff]; omega
  · simp only [true_iff]; omega

theorem toNat_ofNat_of_lt {n : ℕ} (h : n < 2 ^ 64) : (UInt64.ofNat n).toNat = n := by
  rw [UInt64.toNat_ofNat', Nat.mod_eq_of_lt h]

/-- Wrapping addition of a length stays exact below `2 ^ 64`. -/
theorem toNat_add_ofNat {a : UInt64} {n : ℕ} (h : a.toNat + n < 2 ^ 64) :
    (a + UInt64.ofNat n).toNat = a.toNat + n := by
  rw [UInt64.toNat_add, toNat_ofNat_of_lt (by omega), Nat.mod_eq_of_lt h]

/-- `u64::saturating_sub`. -/
def saturatingSub (a b : UInt64) : UInt64 := if b ≤ a then a - b else 0

theorem toNat_saturatingSub (a b : UInt64) : (saturatingSub a b).toNat = a.toNat - b.toNat := by
  unfold saturatingSub
  split_ifs with h
  · exact UInt64.toNat_sub_of_le _ _ h
  · rw [UInt64.le_iff_toNat_le] at h
    rw [UInt64.toNat_zero]
    omega

/-- `u64::to_be_bytes`. -/
def u64ToBe (n : UInt64) : List UInt8 := ByteOrder.beBytes 8 n.toNat

/-- `u64::from_be_bytes`. -/
def u64FromBe (bs : List UInt8) : UInt64 := UInt64.ofNat (ByteOrder.ofBe bs)

/-- `u64::to_le_bytes`. -/
def u64ToLe (n : UInt64) : List UInt8 := ByteOrder.leBytes 8 n.toNat

/-- `u32::to_be_bytes`. -/
def u32ToBe (n : UInt32) : List UInt8 := ByteOrder.beBytes 4 n.toNat

/-- `u32::from_be_bytes`. -/
def u32FromBe (bs : List UInt8) : UInt32 := UInt32.ofNat (ByteOrder.ofBe bs)

/-- `u16::to_be_bytes`. -/
def u16ToBe (n : UInt16) : List UInt8 := ByteOrder.beBytes 2 n.toNat

/-- `u16::from_be_bytes`. -/
def u16FromBe (bs : List UInt8) : UInt16 := UInt16.ofNat (ByteOrder.ofBe bs)

@[simp] theorem length_u64ToBe (n : UInt64) : (u64ToBe n).length = 8 := ByteOrder.length_beBytes _ _
@[simp] theorem length_u64ToLe (n : UInt64) : (u64ToLe n).length = 8 := ByteOrder.length_leBytes _ _
@[simp] theorem length_u32ToBe (n : UInt32) : (u32ToBe n).length = 4 := ByteOrder.length_beBytes _ _
@[simp] theorem length_u16ToBe (n : UInt16) : (u16ToBe n).length = 2 := ByteOrder.length_beBytes _ _

@[simp] theorem u64FromBe_toBe (n : UInt64) : u64FromBe (u64ToBe n) = n := by
  rw [u64FromBe, u64ToBe, ByteOrder.ofBe_beBytes (by exact n.toNat_lt), UInt64.ofNat_toNat]

@[simp] theorem u32FromBe_toBe (n : UInt32) : u32FromBe (u32ToBe n) = n := by
  rw [u32FromBe, u32ToBe, ByteOrder.ofBe_beBytes (by exact n.toNat_lt), UInt32.ofNat_toNat]

@[simp] theorem u16FromBe_toBe (n : UInt16) : u16FromBe (u16ToBe n) = n := by
  rw [u16FromBe, u16ToBe, ByteOrder.ofBe_beBytes (by exact n.toNat_lt), UInt16.ofNat_toNat]

theorem u64ToBe_fromBe {bs : List UInt8} (h : bs.length = 8) : u64ToBe (u64FromBe bs) = bs := by
  have hlt := ByteOrder.ofBe_lt bs
  rw [h] at hlt
  rw [u64ToBe, u64FromBe, toNat_ofNat_of_lt hlt, ← h, ByteOrder.beBytes_ofBe]

theorem u16ToBe_fromBe {bs : List UInt8} (h : bs.length = 2) : u16ToBe (u16FromBe bs) = bs := by
  have hlt : ByteOrder.ofBe bs < 2 ^ 16 := by
    have hle := ByteOrder.ofBe_lt bs
    rwa [h] at hle
  rw [u16ToBe, u16FromBe, UInt16.toNat_ofNat', Nat.mod_eq_of_lt hlt, ← h, ByteOrder.beBytes_ofBe]

theorem u64ToLe_injective : Function.Injective u64ToLe := by
  intro m n h
  have hmn := ByteOrder.leBytes_inj (by exact m.toNat_lt) (by exact n.toNat_lt) h
  exact UInt64.toNat_inj.1 hmn

/-- The bytes of a byte-string literal `b"…"`. -/
def ascii (s : String) : List UInt8 := s.toList.map fun c => UInt8.ofNat c.toNat

end Thther
