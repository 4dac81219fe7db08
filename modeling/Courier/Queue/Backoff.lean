/-! How long a read loop rests after a failure.

A loop counts its failures and reckons with them in words of a fixed width. It comes to what the
numbers come to. -/
namespace Courier.Queue

/-- Milliseconds after `failures` failures in a row before this one: 100, doubled with each, and
5000 at most. -/
def backoff (failures : Nat) : Nat := min (100 <<< min failures 6) 5000

theorem backoff_le (n : Nat) : backoff n ≤ 5000 := Nat.min_le_right _ _

theorem le_backoff (n : Nat) : 100 ≤ backoff n := by
  have : 1 ≤ 2 ^ min n 6 := Nat.one_le_two_pow
  unfold backoff
  omega

theorem backoff_le_succ (n : Nat) : backoff n ≤ backoff (n + 1) := by
  have h : min n 6 ≤ min (n + 1) 6 := by omega
  have : 2 ^ min n 6 ≤ 2 ^ min (n + 1) 6 := Nat.pow_le_pow_right (by omega) h
  unfold backoff
  omega

theorem backoff_mono {m n : Nat} (h : m ≤ n) : backoff m ≤ backoff n := by
  induction h with
  | refl => exact Nat.le_refl _
  | @step n _ ih => exact Nat.le_trans ih (backoff_le_succ n)

/-- A count that has stopped at the largest word makes no difference. -/
theorem backoff_min (n : Nat) : backoff (min n 0xFFFFFFFF) = backoff n := by
  have same : min (min n 0xFFFFFFFF) 6 = min n 6 := by omega
  rw [backoff, same, backoff]

/-- Multiplication that stops at the largest word. -/
def saturatingMul (a b : UInt64) : UInt64 :=
  if a.toNat * b.toNat < UInt64.size then a * b else 0xFFFFFFFFFFFFFFFF

/-- A count of failures with one more, which stops at the largest one. -/
def oneMore (count : UInt32) : UInt32 := if count = 0xFFFFFFFF then count else count + 1

/-- The number of bits by which the shortest pause is shifted. -/
def shift (failures : UInt32) : UInt64 := (min failures 6).toUInt64

/-- `backoff` as a loop reckons it, in words and with a count that may have stopped. -/
def pause (failures : UInt32) : UInt64 := min (saturatingMul 100 (1 <<< shift failures)) 5000

theorem toNat_oneMore (count : UInt32) :
    (oneMore count).toNat = min (count.toNat + 1) 0xFFFFFFFF := by
  unfold oneMore
  have bound := count.toNat_lt
  split
  · next full =>
    subst full
    rfl
  · next more =>
    have more : count.toNat ≠ 0xFFFFFFFF := fun full => more (UInt32.toNat_inj.mp full)
    rw [UInt32.toNat_add, show (1 : UInt32).toNat = 1 from rfl]
    omega

theorem toNat_shift (failures : UInt32) : (shift failures).toNat = min failures.toNat 6 := by
  have six : (6 : UInt32).toNat = 6 := rfl
  have eq : min failures 6 = if failures ≤ 6 then failures else 6 := rfl
  unfold shift
  rw [eq, UInt32.toNat_toUInt64]
  split
  · next few =>
    have := UInt32.le_iff_toNat_le.mp few
    omega
  · next many =>
    have := mt UInt32.le_iff_toNat_le.mpr many
    omega

theorem toNat_shifted (failures : UInt32) :
    ((1 : UInt64) <<< shift failures).toNat = 1 <<< min failures.toNat 6 := by
  have small : 1 <<< min failures.toNat 6 ≤ 1 <<< 6 := by
    rw [Nat.shiftLeft_eq, Nat.shiftLeft_eq]
    exact Nat.mul_le_mul_left 1 (Nat.pow_le_pow_right (by decide) (Nat.min_le_right _ _))
  have bits : min failures.toNat 6 % 64 = min failures.toNat 6 := by omega
  rw [UInt64.toNat_shiftLeft, toNat_shift, bits]
  exact Nat.mod_eq_of_lt (Nat.lt_of_le_of_lt small (by decide))

theorem product_lt (failures : UInt32) :
    (100 : UInt64).toNat * ((1 : UInt64) <<< shift failures).toNat < UInt64.size := by
  have few : 2 ^ min failures.toNat 6 ≤ 2 ^ 6 :=
    Nat.pow_le_pow_right (by decide) (Nat.min_le_right _ _)
  rw [toNat_shifted, Nat.shiftLeft_eq, show (100 : UInt64).toNat = 100 from rfl, UInt64.size]
  omega

theorem toNat_pause (failures : UInt32) : (pause failures).toNat = backoff failures.toNat := by
  have most : (5000 : UInt64).toNat = 5000 := rfl
  have product : (100 * (1 : UInt64) <<< shift failures).toNat = 100 <<< min failures.toNat 6 := by
    rw [UInt64.toNat_mul, Nat.mod_eq_of_lt (product_lt failures), toNat_shifted]
    simp [Nat.shiftLeft_eq]
  have eq (a b : UInt64) : min a b = if a ≤ b then a else b := rfl
  unfold pause saturatingMul backoff
  rw [if_pos (product_lt failures), eq, ← product]
  split
  · next less =>
    have := UInt64.le_iff_toNat_le.mp less
    omega
  · next more =>
    have := mt UInt64.le_iff_toNat_le.mpr more
    omega

/-- What stands for a number of failures: the number, or the largest word if that is less. -/
def Counts (count : UInt32) (n : Nat) : Prop := count.toNat = min n 0xFFFFFFFF

namespace Counts

variable {count : UInt32} {n : Nat}

theorem zero : Counts 0 0 := rfl

theorem oneMore (h : Counts count n) : Counts (oneMore count) (n + 1) := by
  unfold Counts at h ⊢
  rw [toNat_oneMore, h]
  omega

theorem pause (h : Counts count n) : (pause count).toNat = backoff n := by
  rw [toNat_pause, h, backoff_min]

end Counts

end Courier.Queue
