import Mathlib
import TitanRover.Foundations.TwoLink
import TitanRover.Leap.Sketch

/-! # The inverse kinematics of the sketch

`solveTheta1` and `solveTheta2` in exact real arithmetic. The square root of a negative number is
NaN, and with it every angle of a target out of reach. -/
namespace TitanRover.Leap
open Foundations
set_option autoImplicit false

noncomputable def sqrt (x : ℝ) : Num ℝ := if 0 ≤ x then some (Real.sqrt x) else none

/-- `atan2`, the principal argument of the point `(x, y)`. -/
noncomputable def atan2 (y x : ℝ) : ℝ := Complex.arg ⟨x, y⟩

noncomputable def c2 (x y l1 l2 : ℝ) : ℝ :=
  (x * x + y * y - l1 * l1 - l2 * l2) / ((2 : ℕ) * l1 * l2)

noncomputable def solveTheta1 (x y l1 l2 : ℝ) : Num ℝ :=
  (sqrt (1 - c2 x y l1 l2 * c2 x y l1 l2)).map (fun s2 =>
    let k1 := l1 + l2 * c2 x y l1 l2
    let k2 := l2 * s2
    atan2 y x - atan2 k2 k1)

noncomputable def solveTheta2 (x y l1 l2 : ℝ) : Num ℝ :=
  (sqrt (1 - c2 x y l1 l2 * c2 x y l1 l2)).map (fun s2 => atan2 s2 (c2 x y l1 l2))

/-- The sketch as it runs. -/
noncomputable def realEnv : Env ℝ where
  PI := Real.pi
  sin := Real.sin
  cos := Real.cos
  solveTheta1 := solveTheta1
  solveTheta2 := solveTheta2

/-! ## What the solvers compute -/

theorem atan2_isAtan2 : TwoLink.IsAtan2 atan2 := by
  intro b a
  have hnorm : √(a * a + b * b) = ‖(⟨a, b⟩ : ℂ)‖ := by
    rw [Complex.norm_def, Complex.normSq_mk]
  rw [hnorm, atan2]
  exact ⟨Complex.norm_mul_cos_arg _, Complex.norm_mul_sin_arg _⟩

theorem atan2_principal : TwoLink.Principal atan2 :=
  fun _ _ => ⟨Complex.neg_pi_lt_arg _, Complex.arg_le_pi _⟩

theorem c2_spec {x y l1 l2 : ℝ} (h1 : l1 ≠ 0) (h2 : l2 ≠ 0) :
    2 * l1 * l2 * c2 x y l1 l2 = x * x + y * y - l1 * l1 - l2 * l2 := by
  rw [c2]
  push_cast
  field_simp

end TitanRover.Leap
