import Mathlib.Algebra.GroupWithZero.Nat
import Mathlib.Order.Basic

namespace WirelessGateway.Lib.Ticks

variable {a b c n : Nat}

/-- What a 32-bit tick counter shows at a time. -/
def stamp (t : Nat) : UInt32 := UInt32.ofNat t

theorem toNat_stamp (t : Nat) : (stamp t).toNat = t % 2 ^ 32 := UInt32.toNat_ofNat'

theorem stamp_toNat (w : UInt32) : stamp w.toNat = w := UInt32.ofNat_toNat

theorem stamp_add (t : Nat) (d : UInt32) : stamp t + d = stamp (t + d.toNat) := by
  apply UInt32.toNat.inj
  rw [UInt32.toNat_add, toNat_stamp, toNat_stamp]
  omega

theorem toNat_stamp_sub (h : a ≤ b) : (stamp b - stamp a).toNat = (b - a) % 2 ^ 32 := by
  rw [UInt32.toNat_sub, toNat_stamp, toNat_stamp]
  omega

theorem le_of_le_stamp_sub {d : UInt32} (h : a ≤ b) (hd : d ≤ stamp b - stamp a) :
    a + d.toNat ≤ b := by
  rw [UInt32.le_iff_toNat_le, toNat_stamp_sub h] at hd
  have hmod := Nat.mod_le (b - a) (2 ^ 32)
  omega

theorem toInt32_neg_iff (u : UInt32) : u.toInt32 < 0 ↔ 2 ^ 31 ≤ u.toNat := by
  rw [Int32.lt_iff_toInt_lt, Int32.toInt, UInt32.toBitVec_toInt32, BitVec.toInt_eq_toNat_cond]
  have hlt := u.toNat_lt
  have hnat : u.toBitVec.toNat = u.toNat := rfl
  rw [hnat]
  have hzero : Int32.toInt 0 = 0 := rfl
  split
  next h =>
    simp only [hzero]
    omega
  next h =>
    simp only [hzero]
    omega

/-- The signed comparison with a deadline that lies less than half the range of
the counter ahead. -/
theorem before_deadline_iff {d : UInt32} (hd : d.toNat < 2 ^ 31) (h : a ≤ b)
    (hb : b < a + d.toNat + 2 ^ 31) : (stamp b - (stamp a + d)).toInt32 < 0 ↔ b < a + d.toNat := by
  rw [toInt32_neg_iff, stamp_add, UInt32.toNat_sub, toNat_stamp, toNat_stamp]
  omega

end WirelessGateway.Lib.Ticks
