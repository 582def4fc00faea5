import Mathlib.Algebra.Order.Ring.Int

/-!
# 64-bit signed arithmetic

A machine result is the exact one taken modulo `2 ^ 64` into the signed range, so a sum may be wrapped
at every addition or only once at the end.
-/

namespace FsServer.Lib

def int64 (x : Int) : Int := (x + 2 ^ 63) % 2 ^ 64 - 2 ^ 63

def maxInt64 : Int := 2 ^ 63 - 1

theorem int64_of_range {x : Int} (hmin : -2 ^ 63 ≤ x) (hmax : x ≤ maxInt64) : int64 x = x := by
  unfold int64
  unfold maxInt64 at hmax
  omega

theorem int64_zero : int64 0 = 0 := by
  unfold int64
  omega

theorem int64_int64_add (x y : Int) : int64 (int64 x + y) = int64 (x + y) := by
  unfold int64
  omega

theorem int64_le (x : Int) : int64 x ≤ maxInt64 := by
  unfold int64 maxInt64
  omega

theorem int64_eq_iff {x y : Int} : int64 x = int64 y ↔ (2 ^ 64 : Int) ∣ x - y := by
  unfold int64
  omega

end FsServer.Lib
