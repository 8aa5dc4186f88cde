import Mathlib.Data.Nat.Bitwise

/-!
# Ranges of numbers that begin with the same bits

A network is a number of `width` bits of which the first `len` count. A mask test of a word is a division.
-/

namespace Lib

/-- The numbers below `2 ^ width` that have the first `len` bits of `net`. -/
structure Cidr (width : Nat) where
  net : Nat
  len : Nat
  len_le : len ≤ width

namespace Cidr
variable {width : Nat} {c : Cidr width} {n : Nat}

def contains (c : Cidr width) (n : Nat) : Bool := n / 2 ^ (width - c.len) == c.net / 2 ^ (width - c.len)

theorem contains_iff : c.contains n = true ↔ n / 2 ^ (width - c.len) = c.net / 2 ^ (width - c.len) := beq_iff_eq

/-- A network contains its own number. -/
theorem contains_net (c : Cidr width) : c.contains c.net = true := contains_iff.2 rfl

/-- A whole number of bits is compared when the length is the width. -/
theorem contains_full (h : c.len = width) : c.contains n = true ↔ n = c.net := by
  rw [contains_iff, h, Nat.sub_self, Nat.pow_zero, Nat.div_one, Nat.div_one]

end Cidr

/-- A mask of the upper bits drops the lower ones. -/
theorem land_upper {n width low : Nat} (hn : n < 2 ^ width) (hlow : low ≤ width) :
    n &&& (2 ^ width - 2 ^ low) = n / 2 ^ low * 2 ^ low := by
  have hmask : 2 ^ width - 2 ^ low = (2 ^ (width - low) - 1) * 2 ^ low := by
    rw [Nat.sub_mul, Nat.one_mul, ← Nat.pow_add, Nat.sub_add_cancel hlow]
  apply Nat.eq_of_testBit_eq
  intro i
  rw [Nat.testBit_and, hmask, Nat.testBit_mul_two_pow, Nat.testBit_mul_two_pow, Nat.testBit_two_pow_sub_one,
    Nat.testBit_div_two_pow]
  by_cases hi : low ≤ i
  · rw [Nat.sub_add_cancel hi]
    by_cases hw : i < width
    · have hlt : i - low < width - low := by omega
      simp [hi, hlt]
    · have hbit : n.testBit i = false := Nat.testBit_lt_two_pow (hn.trans_le (Nat.pow_le_pow_right Nat.two_pos (by omega)))
      simp [hbit]
  · simp [hi]

/-- The mask test of a word. -/
theorem land_upper_eq {n width low v : Nat} (hn : n < 2 ^ width) (hlow : low ≤ width) :
    n &&& (2 ^ width - 2 ^ low) = v * 2 ^ low ↔ n / 2 ^ low = v := by
  rw [land_upper hn hlow]
  exact Nat.mul_left_inj (Nat.two_pow_pos low).ne'

end Lib
