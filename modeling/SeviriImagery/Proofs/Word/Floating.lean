import Mathlib
import SeviriImagery.Radiometry

/-!
# Numbers that are no numbers

Arithmetic passes the want of a number on: what is taken off no number leaves no number
(`notANumber_sub`).  A comparison does not see it as equal to anything, not even to itself, and
that is the only exception: any other number is equal to itself (`Float32.beq_self_iff`).

Both follow from what the operations are on unpacked numbers, where no number is a form of its own.
-/

namespace SeviriImagery

open Float.Model (Format UnpackedFloat)

/-- A number compares with itself as equal, unless it is no number. -/
theorem UnpackedFloat.compare_self (u : UnpackedFloat) :
    u.compare u = if u.isNaN then none else some .eq := by
  cases u with
  | notANumber => rfl
  | infinity sign => cases sign <;> rfl
  | zero sign => cases sign <;> rfl
  | finite sign mantissa exponent hpositive =>
      cases sign <;> simp [UnpackedFloat.compare, UnpackedFloat.isNaN]

/-- A number is equal to itself, unless it is no number. -/
theorem Float32.beq_self_iff (x : Float32) : (x == x) = true ↔ x.isNaN = false := by
  have hbeq : (x == x) = (x.toModel.unpack.compare x.toModel.unpack == some .eq) := rfl
  have hnan : x.isNaN = x.toModel.unpack.isNaN := rfl
  rw [hbeq, hnan, UnpackedFloat.compare_self]
  cases x.toModel.unpack.isNaN <;> decide

/-- No number has one form only. -/
theorem UnpackedFloat.eq_notANumber {u : UnpackedFloat} (hu : u.isNaN = true) :
    u = .notANumber := by
  cases u with
  | notANumber => rfl
  | infinity _ | zero _ | finite _ _ _ _ => cases hu

theorem UnpackedFloat.notANumber_sub (spec : Format) (u : UnpackedFloat) :
    UnpackedFloat.sub spec .notANumber u = .notANumber := rfl

/-- What is taken off no number leaves no number. -/
theorem notANumber_sub (y : Float32) : notANumber - y = notANumber := by
  have hsub : notANumber - y =
      ⟨.pack (.sub Format.binary32 notANumber.toModel.unpack y.toModel.unpack)⟩ := rfl
  have hunpack : notANumber.toModel.unpack = .notANumber :=
    UnpackedFloat.eq_notANumber (by decide)
  rw [hsub, hunpack, UnpackedFloat.notANumber_sub]
  rfl

theorem isNaN_notANumber : notANumber.isNaN = true := by decide

end SeviriImagery
