import Mathlib

/-!
# Machine integers

Integers confined to an interval, with the checked and the saturating form of each operation.
-/

namespace MachineInt

/-- An integer type: the interval of values it holds. -/
structure Format where
  least : Int
  greatest : Int
  least_nonpos : least ≤ 0
  greatest_nonneg : 0 ≤ greatest

variable (F : Format)

/-- `x` is a value of the type. -/
def Format.Fits (x : Int) : Prop := F.least ≤ x ∧ x ≤ F.greatest

instance (x : Int) : Decidable (F.Fits x) :=
  inferInstanceAs (Decidable (F.least ≤ x ∧ x ≤ F.greatest))

/-- The value if it fits. -/
def Format.checked (x : Int) : Option Int := if F.Fits x then some x else none

def Format.checkedAdd (x y : Int) : Option Int := F.checked (x + y)

def Format.checkedSub (x y : Int) : Option Int := F.checked (x - y)

def Format.checkedMul (x y : Int) : Option Int := F.checked (x * y)

/-- Division truncates towards zero and has no result for a zero divisor. -/
def Format.checkedDiv (x y : Int) : Option Int := if y = 0 then none else F.checked (x.tdiv y)

/-- The closest value of the type. -/
def Format.saturate (x : Int) : Int := max F.least (min F.greatest x)

def Format.saturatingAdd (x y : Int) : Int := F.saturate (x + y)

def Format.saturatingSub (x y : Int) : Int := F.saturate (x - y)

/-- 128-bit signed integers. -/
def i128 : Format where
  least := -170141183460469231731687303715884105728
  greatest := 170141183460469231731687303715884105727
  least_nonpos := by decide
  greatest_nonneg := by decide

/-- 32-bit unsigned integers. -/
def u32 : Format where
  least := 0
  greatest := 4294967295
  least_nonpos := by decide
  greatest_nonneg := by decide

end MachineInt
