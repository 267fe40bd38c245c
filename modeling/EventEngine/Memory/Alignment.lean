import Mathlib.Data.Nat.Bitwise
import Mathlib.Tactic.Ring

/-!
# Rounding up to an alignment

`alignUp` is the source's helper on a `size_t` of any number of bits, with the wrap-around
of unsigned arithmetic. Where the sum fits it is the next multiple.
-/

namespace EventEngine.Memory

/-- Bits of `size_t` on the supported hosts. -/
def sizeBits : Nat := 64

/-- `align_up` on a `size_t` of `bits` bits; the sum wraps. -/
def alignUp (bits value alignment : Nat) : Nat :=
  let remainder := value &&& (alignment - 1)
  if remainder = 0 then value
  else (value + alignment - remainder) % 2 ^ bits

/-- Rounding up to a power of two stays below the next multiple. -/
theorem alignUp_eq {bits value : Nat} (k : Nat) (hfit : value + 2 ^ k ≤ 2 ^ bits) :
    alignUp bits value (2 ^ k) = (value + (2 ^ k - 1)) / 2 ^ k * 2 ^ k := by
  have hpos : 0 < 2 ^ k := Nat.two_pow_pos k
  have hdiv := Nat.div_add_mod value (2 ^ k)
  have hlt := Nat.mod_lt value hpos
  simp only [alignUp, Nat.and_two_pow_sub_one_eq_mod]
  by_cases hzero : value % 2 ^ k = 0
  · have hround : (value + (2 ^ k - 1)) / 2 ^ k = value / 2 ^ k := by
      rw [Nat.div_eq_iff hpos]
      constructor
      · rw [Nat.mul_comm]; omega
      · rw [Nat.mul_comm]; omega
    rw [if_pos hzero, hround, Nat.mul_comm]
    omega
  · have hround : (value + (2 ^ k - 1)) / 2 ^ k = value / 2 ^ k + 1 := by
      rw [Nat.div_eq_iff hpos]
      constructor
      · rw [Nat.add_mul, Nat.mul_comm]; omega
      · rw [Nat.add_mul, Nat.mul_comm]; omega
    have hsum : value + 2 ^ k - value % 2 ^ k < 2 ^ bits := by omega
    rw [if_neg hzero, hround, Nat.mod_eq_of_lt hsum, Nat.add_mul, Nat.mul_comm]
    omega

end EventEngine.Memory
