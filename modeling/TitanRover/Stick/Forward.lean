import TitanRover.Stick.Updated2DOF

/-! # The inverse kinematics inverts the forward one

`leap_motion_udp.pde` and `Updated 2DOF` solve a target within reach by the same formulas, the
second with its global lengths in one place. The angles lead an arm of these lengths back to the
target, in all four quadrants and on both limits of the reach. -/
namespace TitanRover.Stick
open Foundations
set_option autoImplicit false

/-- `solveTheta1` of `Updated 2DOF` for any values of the globals `length1` and `length2`. -/
def Updated2DOF.solveTheta1Of {R : Type*} [Field R] (m : Maths R) (length1 length2 x y l1 l2 : R) :
    Double R :=
  (m.sqrt (1 - Updated2DOF.c2 x y l1 l2 * Updated2DOF.c2 x y l1 l2)).map (fun s2 =>
    let k1 := length1 + length2 * Updated2DOF.c2 x y l1 l2
    let k2 := l2 * s2
    m.atan2 y x - m.atan2 k2 k1)

theorem Updated2DOF.solveTheta1_eq {R : Type*} [Field R] (m : Maths R) :
    Updated2DOF.solveTheta1 m = Updated2DOF.solveTheta1Of m length1 length2 := rfl

/-- Both angles are defined, and the arm turned to them ends at the target. -/
def Solves (l1 l2 x y : ℝ) (theta1 theta2 : Option ℝ) : Prop :=
  ∃ t1 t2, theta1 = some t1 ∧ theta2 = some t2 ∧ TwoLink.EndsAt l1 l2 t1 t2 x y

/-- A point of the plot `forward_kinematics_model` of `matlab_3dof_plot`. -/
noncomputable def forwardKinematicsModel (length1 length2 length3 theta1 theta2 theta3 : ℝ) : ℝ × ℝ :=
  (length1 * Real.cos theta1 + length2 * Real.cos (theta1 + theta2) +
      length3 * Real.cos (theta1 + theta2 + theta3),
    length1 * Real.sin theta1 + length2 * Real.sin (theta1 + theta2) +
      length3 * Real.sin (theta1 + theta2 + theta3))

/-- Without a third link the plot shows where the arm of two ends. -/
theorem endsAt_iff_model (l1 l2 t1 t2 t3 x y : ℝ) :
    TwoLink.EndsAt l1 l2 t1 t2 x y ↔ forwardKinematicsModel l1 l2 0 t1 t2 t3 = (x, y) := by
  rw [forwardKinematicsModel, zero_mul, zero_mul, add_zero, add_zero, Prod.mk.injEq]
  exact ⟨fun h => ⟨h.x, h.y⟩, fun h => ⟨h.1, h.2⟩⟩

section Solvers
variable {l1 l2 x y : ℝ}

theorem leap_c2_eq (x y l1 l2 : ℝ) : Leap.c2 x y l1 l2 = Updated2DOF.c2 x y l1 l2 := by
  rw [Leap.c2, Updated2DOF.c2]
  norm_num

/-- The elbow's cosine and sine, where the target is within reach. -/
theorem cosine_spec (h1 : 0 < l1) (h2 : 0 < l2) (hr : TwoLink.Reaches l1 l2 (x * x + y * y)) :
    0 ≤ 1 - Updated2DOF.c2 x y l1 l2 * Updated2DOF.c2 x y l1 l2 ∧
      2 * l1 * l2 * Updated2DOF.c2 x y l1 l2 = x * x + y * y - l1 * l1 - l2 * l2 := by
  refine ⟨?_, ?_⟩
  · rw [TwoLink.one_sub_mul_self_nonneg_iff, Updated2DOF.c2, TwoLink.cosine_range_iff h1 h2]
    exact hr
  · rw [← leap_c2_eq]
    exact Leap.c2_spec h1.ne' h2.ne'

theorem solves_of_reaches (toInt : Double ℝ → ℤ) (h1 : 0 < l1) (h2 : 0 < l2)
    (hr : TwoLink.Reaches l1 l2 (x * x + y * y)) :
    Solves l1 l2 x y (Updated2DOF.solveTheta1Of (realMaths toInt) l1 l2 x y l1 l2)
      (Updated2DOF.solveTheta2 (realMaths toInt) x y l1 l2) := by
  obtain ⟨hroot, hc⟩ := cosine_spec h1 h2 hr
  have hsqrt : (realMaths toInt).sqrt
      (1 - Updated2DOF.c2 x y l1 l2 * Updated2DOF.c2 x y l1 l2) =
        some √(1 - Updated2DOF.c2 x y l1 l2 * Updated2DOF.c2 x y l1 l2) := if_pos hroot
  have hs := Real.mul_self_sqrt hroot
  refine ⟨_, _, ?_, ?_, TwoLink.endsAt_of_cosine Leap.atan2_isAtan2 hc (by rw [hs]; ring)⟩
  · rw [Updated2DOF.solveTheta1Of, hsqrt]
    rfl
  · rw [Updated2DOF.solveTheta2, hsqrt]
    rfl

/-- Both sketches call the same functions. -/
theorem leap_solvers_eq (toInt : Double ℝ → ℤ) (x y l1 l2 : ℝ) :
    Leap.solveTheta1 x y l1 l2 = Updated2DOF.solveTheta1Of (realMaths toInt) l1 l2 x y l1 l2 ∧
      Leap.solveTheta2 x y l1 l2 = Updated2DOF.solveTheta2 (realMaths toInt) x y l1 l2 := by
  simp only [Leap.solveTheta1, Leap.solveTheta2, leap_c2_eq]
  exact ⟨rfl, rfl⟩

theorem inverse_kinematics_inverse (h1 : 0 < l1) (h2 : 0 < l2)
    (hr : |l1 - l2| ≤ √(x ^ 2 + y ^ 2) ∧ √(x ^ 2 + y ^ 2) ≤ l1 + l2) :
    Solves l1 l2 x y (Leap.solveTheta1 x y l1 l2) (Leap.solveTheta2 x y l1 l2) ∧
      ∀ toInt, Solves l1 l2 x y
          (Updated2DOF.solveTheta1Of (realMaths toInt) l1 l2 x y l1 l2)
          (Updated2DOF.solveTheta2 (realMaths toInt) x y l1 l2) ∧
        (l1 = Updated2DOF.length1 → l2 = Updated2DOF.length2 → Solves l1 l2 x y
          (Updated2DOF.solveTheta1 (realMaths toInt) x y l1 l2)
          (Updated2DOF.solveTheta2 (realMaths toInt) x y l1 l2)) := by
  have hreach : TwoLink.Reaches l1 l2 (x * x + y * y) := by
    have hdist : x * x + y * y = √(x ^ 2 + y ^ 2) * √(x ^ 2 + y ^ 2) := by
      rw [Real.mul_self_sqrt (by positivity), sq, sq]
    rw [hdist, TwoLink.reaches_mul_self_iff (by linarith) (Real.sqrt_nonneg _)]
    exact hr
  refine ⟨?_, fun toInt => ⟨solves_of_reaches toInt h1 h2 hreach, ?_⟩⟩
  · rw [(leap_solvers_eq (fun _ => 0) x y l1 l2).1, (leap_solvers_eq (fun _ => 0) x y l1 l2).2]
    exact solves_of_reaches _ h1 h2 hreach
  · rintro rfl rfl
    rw [Updated2DOF.solveTheta1_eq]
    exact solves_of_reaches toInt h1 h2 hreach

end Solvers

theorem inverse_kinematics_inverse_level :
    Solves 900 1050 1000 0 (Leap.solveTheta1 1000 0 900 1050) (Leap.solveTheta2 1000 0 900 1050) ∧
      ∀ toInt, Solves 900 1050 1000 0
          (Updated2DOF.solveTheta1Of (realMaths toInt) 900 1050 1000 0 900 1050)
          (Updated2DOF.solveTheta2 (realMaths toInt) 1000 0 900 1050) ∧
        ((900 : ℝ) = Updated2DOF.length1 → (1050 : ℝ) = Updated2DOF.length2 →
          Solves 900 1050 1000 0
            (Updated2DOF.solveTheta1 (realMaths toInt) 1000 0 900 1050)
            (Updated2DOF.solveTheta2 (realMaths toInt) 1000 0 900 1050)) := by
  have hdist : √((1000 : ℝ) ^ 2 + 0 ^ 2) = 1000 := by
    rw [zero_pow two_ne_zero, add_zero, Real.sqrt_sq (by norm_num)]
  exact inverse_kinematics_inverse (by norm_num) (by norm_num) (by rw [hdist]; norm_num)

end TitanRover.Stick
