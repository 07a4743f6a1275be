import Mathlib.Data.Int.Init
import Mathlib.Tactic.NormNum

/-!
# Conversions between unsigned 64-bit words and 32-bit `int`

`narrow` keeps the low 32 bits and reads them as two's complement; `widen` sign-extends an `int` to
64 bits. Both are characterised on `Nat` and `Int`, where `omega` finishes.
-/

namespace Lib

/-- An unsigned 64-bit word converted to a 32-bit `int`. -/
def narrow (x : UInt64) : Int := (x.toBitVec.setWidth 32).toInt

/-- An `int` converted to an unsigned 64-bit word. -/
def widen (i : Int) : UInt64 := UInt64.ofBitVec (BitVec.ofInt 64 i)

theorem narrow_eq (x : UInt64) :
    narrow x = if x.toNat % 2 ^ 32 < 2 ^ 31 then ((x.toNat % 2 ^ 32 : Nat) : Int)
      else ((x.toNat % 2 ^ 32 : Nat) : Int) - 2 ^ 32 := by
  unfold narrow
  rw [BitVec.toInt_setWidth, Int.bmod_def, UInt64.toNat_toBitVec]
  split_ifs <;> omega

theorem narrow_of_lt {x : UInt64} (h : x.toNat < 2 ^ 31) : narrow x = x.toNat := by
  rw [narrow_eq]
  split_ifs <;> omega

theorem narrow_eq_zero_iff (x : UInt64) : narrow x = 0 ↔ x.toNat % 2 ^ 32 = 0 := by
  rw [narrow_eq]
  split_ifs <;> omega

theorem toNat_min (x y : UInt64) : (min x y).toNat = min x.toNat y.toNat := by
  rw [UInt64.min_def]
  split_ifs with h <;> rw [UInt64.le_iff_toNat_le] at h <;> omega

theorem toNat_max (x y : UInt64) : (max x y).toNat = max x.toNat y.toNat := by
  rw [UInt64.max_def]
  split_ifs with h <;> rw [UInt64.le_iff_toNat_le] at h <;> omega

theorem toNat_widen (i : Int) : (widen i).toNat = (i % 2 ^ 64).toNat := by
  unfold widen
  rw [UInt64.toNat_ofBitVec, BitVec.toNat_ofInt]
  norm_num

/-- Two words with the same low 32 bits differ by a multiple of `2 ^ 32`. -/
theorem narrow_sub_widen_narrow {x y : UInt64} (h : y.toNat % 2 ^ 32 = x.toNat % 2 ^ 32) :
    narrow (x - widen (narrow y)) = 0 := by
  have hx := x.toNat_lt
  rw [narrow_eq_zero_iff, UInt64.toNat_sub, toNat_widen, narrow_eq]
  split_ifs <;> omega

theorem toNat_widen_narrow_mod (x : UInt64) : (widen (narrow x)).toNat % 2 ^ 32 = x.toNat % 2 ^ 32 := by
  rw [toNat_widen, narrow_eq]
  split_ifs <;> omega

theorem toNat_widen_natCast {n : Nat} (h : n < 2 ^ 64) : (widen n).toNat = n := by
  rw [toNat_widen]
  omega

end Lib
