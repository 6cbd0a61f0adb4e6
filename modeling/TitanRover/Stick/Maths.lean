import TitanRover.Leap.Kinematics

/-! # The arithmetic of the arm sketches

A `double` is an exact number of a field or NaN. The functions of the mathematics library and the
conversion to `int`, which the language leaves open for NaN, are parameters; `realMaths` is the
real instance. -/
namespace TitanRover.Stick
set_option autoImplicit false

/-- A `double` that may be NaN, which is `none`. -/
abbrev Double (R : Type*) := Option R

structure Maths (R : Type*) where
  PI : R
  sin : R → R
  cos : R → R
  atan : R → R
  atan2 : R → R → R
  sqrt : R → Double R
  acos : R → Double R
  toInt : Double R → ℤ

section Doubles
variable {R : Type*} [Field R]

/-- Division, NaN for a zero divisor: the sketches take the `acos` of the quotient, which is NaN
for an infinite one too. -/
def divide [DecidableEq R] (a b : R) : Double R := if b = 0 then none else some (a / b)

/-- The cosine that `solveTheta1` takes the `acos` of. -/
def shoulderCosine [DecidableEq R] (m : Maths R) (x y l1 l2 : R) : Double R :=
  (m.sqrt (x ^ 2 + y ^ 2)).bind (fun squareRoot =>
    divide (x ^ 2 + y ^ 2 + l1 ^ 2 - l2 ^ 2) (((2 : ℤ) : R) * l1 * squareRoot))

/-- The cosine that `solveTheta2` takes the `acos` of. -/
def elbowCosine [DecidableEq R] (x y l1 l2 : R) : Double R :=
  divide (l1 ^ 2 + l2 ^ 2 - x ^ 2 - y ^ 2) (((2 : ℤ) : R) * l1 * l2)

/-- The conversion of an angle to whole degrees. -/
def degrees (m : Maths R) (theta : Double R) : ℤ :=
  m.toInt (theta.map (fun t => t * (((180 : ℤ) : R) / m.PI)))

end Doubles

noncomputable def realMaths (toInt : Double ℝ → ℤ) : Maths ℝ where
  PI := Real.pi
  sin := Real.sin
  cos := Real.cos
  atan := Real.arctan
  atan2 := Leap.atan2
  sqrt := Leap.sqrt
  acos := fun x => if -1 ≤ x ∧ x ≤ 1 then some (Real.arccos x) else none
  toInt := toInt

end TitanRover.Stick
