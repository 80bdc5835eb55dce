/-!
# Sizes

Sizes and places are counted in words of 64 bits.  A sum, a difference or a product that no such word
holds goes round: what is left of it is its rest below `2 ^ 64`.  As long as it fits it is the sum, the
difference or the product of the numbers, and each lemma here says so with its bound.
-/

namespace SeviriImagery.Size

/-- The number of sizes. -/
def limit : Nat := UInt64.size

/-- A sum of sizes. -/
def add (a b : Nat) : Nat := (a + b) % limit

/-- A product of sizes. -/
def mul (a b : Nat) : Nat := (a * b) % limit

/-- A difference of sizes. -/
def sub (a b : Nat) : Nat := (a + (limit - b % limit)) % limit

variable {a b c : Nat}

/-- A sum that fits is the sum of the numbers. -/
theorem add_of_lt (hfits : a + b < limit) : add a b = a + b := Nat.mod_eq_of_lt hfits

/-- So is a product. -/
theorem mul_of_lt (hfits : a * b < limit) : mul a b = a * b := Nat.mod_eq_of_lt hfits

/-- A difference of sizes is that of the numbers, unless more is taken off than there is. -/
theorem sub_of_le (hle : b ≤ a) (hfits : a < limit) : sub a b = a - b := by
  have hsmall : b % limit = b := Nat.mod_eq_of_lt (Nat.lt_of_le_of_lt hle hfits)
  have hround : a + (limit - b) = a - b + limit := by omega
  rw [sub, hsmall, hround, Nat.add_mod_right, Nat.mod_eq_of_lt (by omega)]

theorem mul_lt (a b : Nat) : mul a b < limit := Nat.mod_lt _ (by decide)

/-- A sum does not grow by going round. -/
theorem add_le (a b : Nat) : add a b ≤ a + b := Nat.mod_le _ _

/-- Nor does a product. -/
theorem mul_le (a b : Nat) : mul a b ≤ a * b := Nat.mod_le _ _

/-- What goes round on the way has gone round at the end. -/
theorem add_add (a b c : Nat) : add (add a b) c = add a (b + c) := by
  rw [add, add, add, Nat.mod_add_mod, Nat.add_assoc]

end SeviriImagery.Size
