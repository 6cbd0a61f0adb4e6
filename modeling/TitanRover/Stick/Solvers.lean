import TitanRover.Stick.Forward
import TitanRover.Stick.InverseKinematics
import TitanRover.Stick.Shovel
import TitanRover.Stick.SolverDomains

/-! # Where the other three sketches turn the arm

`Titan16_3DOF.ino`, `InverseKinematicsRoboticArm.ino` and `sketch_nov24b.ino` take the angles from
the triangle of the two links and the line to the target, and differ in how they find the direction
of that line. The first two keep the divisor from being zero by putting 1 in its place, and the
first one has no second argument for its arctangent: each theorem says for which targets within
reach the arm ends at the target. -/
namespace TitanRover.Stick
open Foundations
set_option autoImplicit false

section Triangle
variable (toInt : Double ℝ → ℤ) {x y l1 l2 : ℝ}

theorem distance_pos (hne : l1 ≠ l2) (hreach : TwoLink.Reaches l1 l2 (x * x + y * y)) :
    0 < √(x ^ 2 + y ^ 2) := by
  rw [Real.sqrt_pos, sq, sq]
  rcases (add_nonneg (mul_self_nonneg x) (mul_self_nonneg y)).eq_or_lt with h | h
  · rw [← h] at hreach
    exact absurd hreach (TwoLink.not_reaches_zero hne)
  · exact h

theorem distance_mul_self (x y : ℝ) : √(x ^ 2 + y ^ 2) * √(x ^ 2 + y ^ 2) = x * x + y * y := by
  rw [Real.mul_self_sqrt (by positivity), sq, sq]

theorem acos_shoulderCosine (h1 : 0 < l1) (h2 : 0 < l2) (hne : l1 ≠ l2)
    (hreach : TwoLink.Reaches l1 l2 (x * x + y * y)) :
    (shoulderCosine (realMaths toInt) x y l1 l2).bind (realMaths toInt).acos =
      some (TwoLink.shoulderAngle l1 l2 √(x ^ 2 + y ^ 2)) := by
  have hr := distance_pos hne hreach
  have hsquare := distance_mul_self x y
  have hsqrt : (realMaths toInt).sqrt (x ^ 2 + y ^ 2) = some √(x ^ 2 + y ^ 2) :=
    if_pos (by positivity)
  have hden : ((2 : ℤ) : ℝ) * l1 * √(x ^ 2 + y ^ 2) ≠ 0 := by positivity
  have hnum : x ^ 2 + y ^ 2 + l1 ^ 2 - l2 ^ 2 =
      √(x ^ 2 + y ^ 2) * √(x ^ 2 + y ^ 2) + l1 * l1 - l2 * l2 := by
    rw [hsquare]
    ring
  rw [← hsquare] at hreach
  rw [shoulderCosine, hsqrt, Option.bind_some, divide, if_neg hden, hnum, Option.bind_some]
  exact if_pos ((TwoLink.shoulder_range_iff h1 h2 hr).mpr hreach)

theorem acos_elbowCosine (h1 : 0 < l1) (h2 : 0 < l2)
    (hreach : TwoLink.Reaches l1 l2 (x * x + y * y)) :
    (elbowCosine x y l1 l2).bind (realMaths toInt).acos =
      some (TwoLink.elbowAngle l1 l2 √(x ^ 2 + y ^ 2)) := by
  have hsquare := distance_mul_self x y
  have hden : ((2 : ℤ) : ℝ) * l1 * l2 ≠ 0 := by positivity
  have hnum : l1 ^ 2 + l2 ^ 2 - x ^ 2 - y ^ 2 =
      l1 * l1 + l2 * l2 - √(x ^ 2 + y ^ 2) * √(x ^ 2 + y ^ 2) := by
    rw [hsquare]
    ring
  rw [← hsquare] at hreach
  rw [elbowCosine, divide, if_neg hden, hnum, Option.bind_some]
  exact if_pos ((TwoLink.elbow_range_iff h1 h2 _).mpr hreach)

/-- The angles of the two links for a line in direction `α`. -/
noncomputable def turned (α x y l1 l2 : ℝ) : Double ℝ × Double ℝ :=
  (((shoulderCosine (realMaths toInt) x y l1 l2).bind (realMaths toInt).acos).map (fun a => α - a),
    ((elbowCosine x y l1 l2).bind (realMaths toInt).acos).map (fun a => Real.pi - a))

/-- The arm ends at the target's distance, in the direction `α`. -/
theorem turned_ends (α : ℝ) (h1 : 0 < l1) (h2 : 0 < l2) (hne : l1 ≠ l2)
    (hreach : TwoLink.Reaches l1 l2 (x * x + y * y)) :
    Solves l1 l2 (√(x ^ 2 + y ^ 2) * Real.cos α) (√(x ^ 2 + y ^ 2) * Real.sin α)
      (turned toInt α x y l1 l2).1 (turned toInt α x y l1 l2).2 := by
  have hr := distance_pos hne hreach
  have hreach' := hreach
  rw [← distance_mul_self] at hreach'
  refine ⟨_, _, ?_, ?_, TwoLink.endsAt_of_triangle h1 h2 hr hreach' α⟩
  · rw [turned, acos_shoulderCosine toInt h1 h2 hne hreach]
    rfl
  · rw [turned, acos_elbowCosine toInt h1 h2 hreach]
    rfl

/-- The arm ends at the target exactly when the target is within reach and in direction `α`. -/
theorem turned_solves_iff (α : ℝ) (h1 : 0 < l1) (h2 : 0 < l2) (hne : l1 ≠ l2) :
    Solves l1 l2 x y (turned toInt α x y l1 l2).1 (turned toInt α x y l1 l2).2 ↔
      TwoLink.Reaches l1 l2 (x * x + y * y) ∧
        √(x ^ 2 + y ^ 2) * Real.cos α = x ∧ √(x ^ 2 + y ^ 2) * Real.sin α = y := by
  constructor
  · rintro ⟨t1, t2, ht1, ht2, hends⟩
    have hreach : TwoLink.Reaches l1 l2 (x * x + y * y) := by
      rw [← Titan3DOF.elbowCosine_inDomain h1 h2, ← Titan3DOF.acos_isSome_iff toInt]
      obtain ⟨a, ha, -⟩ := Option.map_eq_some_iff.mp ht2
      rw [ha]
      rfl
    obtain ⟨u1, u2, hu1, hu2, hends'⟩ := turned_ends toInt α h1 h2 hne hreach
    rw [ht1, Option.some.injEq] at hu1
    rw [ht2, Option.some.injEq] at hu2
    subst hu1 hu2
    exact ⟨hreach, hends'.unique hends⟩
  · rintro ⟨hreach, hx, hy⟩
    have hends := turned_ends toInt α h1 h2 hne hreach
    rwa [hx, hy] at hends

end Triangle

/-! ## `Titan16_3DOF.ino` -/

theorem arctan_direction {x : ℝ} (hx : 0 < x) (y : ℝ) :
    √(x ^ 2 + y ^ 2) * Real.cos (Real.arctan (y / x)) = x ∧
      √(x ^ 2 + y ^ 2) * Real.sin (Real.arctan (y / x)) = y := by
  have hroot : √(x ^ 2 + y ^ 2) = x * √(1 + (y / x) ^ 2) := by
    have hfactor : x ^ 2 + y ^ 2 = x ^ 2 * (1 + (y / x) ^ 2) := by field_simp
    rw [hfactor, Real.sqrt_mul (sq_nonneg x), Real.sqrt_sq hx.le]
  have hpos : 0 < √(1 + (y / x) ^ 2) := Real.sqrt_pos.mpr (by positivity)
  rw [hroot, Real.cos_arctan, Real.sin_arctan]
  constructor <;> field_simp

section Titan3DOF
variable (toInt : Double ℝ → ℤ) {x y l1 l2 : ℝ}

/-- The arctangent of the quotient only points right: the arm ends at the target exactly when the
target is on that side, and at the opposite point when it is on the other one. -/
theorem Titan3DOF.oneArgument_ends_iff (h1 : 0 < l1) (h2 : 0 < l2) (hne : l1 ≠ l2) :
    (Solves l1 l2 x y (solveTheta1 (realMaths toInt) x y l1 l2)
        (solveTheta2 (realMaths toInt) x y l1 l2) ↔
      TwoLink.Reaches l1 l2 (x * x + y * y) ∧ 0 < x) ∧
    (TwoLink.Reaches l1 l2 (x * x + y * y) → x < 0 →
      Solves l1 l2 (-x) (-y) (solveTheta1 (realMaths toInt) x y l1 l2)
        (solveTheta2 (realMaths toInt) x y l1 l2)) := by
  constructor
  · refine (turned_solves_iff toInt (Real.arctan (y / if x = 0 then 1 else x)) h1 h2 hne).trans
      (and_congr_right fun hreach => ?_)
    constructor
    · rintro ⟨hx, -⟩
      rw [← hx]
      exact mul_pos (distance_pos hne hreach) (Real.cos_arctan_pos _)
    · intro hx
      rw [if_neg hx.ne']
      exact arctan_direction hx y
  · intro hreach hx
    have hends := turned_ends toInt (Real.arctan (y / if x = 0 then 1 else x)) h1 h2 hne hreach
    have hdirection := arctan_direction (neg_pos.mpr hx) (-y)
    rw [neg_div_neg_eq, neg_sq, neg_sq] at hdirection
    rw [if_neg hx.ne, hdirection.1, hdirection.2] at hends
    have htheta : solveTheta1 (realMaths toInt) x y l1 l2 =
        (turned toInt (Real.arctan (y / x)) x y l1 l2).1 := by
      rw [solveTheta1, if_neg hx.ne]
      rfl
    rw [htheta]
    exact hends

end Titan3DOF

theorem Titan3DOF.oneArgument_ends_iff_left :
    ¬ Solves 900 1100 (-1000) 500 (solveTheta1 (realMaths fun _ => 0) (-1000) 500 900 1100)
        (solveTheta2 (realMaths fun _ => 0) (-1000) 500 900 1100) ∧
      Solves 900 1100 (- -1000) (-500) (solveTheta1 (realMaths fun _ => 0) (-1000) 500 900 1100)
        (solveTheta2 (realMaths fun _ => 0) (-1000) 500 900 1100) := by
  obtain ⟨hiff, hopposite⟩ := Titan3DOF.oneArgument_ends_iff (x := -1000) (y := 500) (fun _ => 0)
    (show (0 : ℝ) < 900 by norm_num) (show (0 : ℝ) < 1100 by norm_num) (by norm_num)
  refine ⟨fun h => ?_, hopposite ?_ (by norm_num)⟩
  · exact absurd (hiff.mp h).2 (by norm_num)
  · constructor <;> norm_num

/-! ## `InverseKinematicsRoboticArm.ino` -/

section ThreeLinks
variable (toInt : Double ℝ → ℤ)

theorem InverseKinematics.wrist_solves_iff {x y l1 l2 : ℝ} (h1 : 0 < l1) (h2 : 0 < l2)
    (hne : l1 ≠ l2) :
    Solves l1 l2 x y (solveTheta1 (realMaths toInt) x y l1 l2)
        (solveTheta2 (realMaths toInt) x y l1 l2) ↔
      TwoLink.Reaches l1 l2 (x * x + y * y) ∧ x ≠ 0 := by
  refine (turned_solves_iff toInt (Leap.atan2 y (if x = 0 then 1 else x)) h1 h2 hne).trans
    (and_congr_right fun hreach => ?_)
  constructor
  · rintro ⟨hx, -⟩ h0
    rw [if_pos h0, h0] at hx
    have hone := (Leap.atan2_isAtan2 y 1).1
    have hcos : Real.cos (Leap.atan2 y 1) ≠ 0 := by
      intro hzero
      rw [hzero, mul_zero] at hone
      exact one_ne_zero hone.symm
    have hr := distance_pos hne hreach
    rw [h0] at hr
    exact mul_ne_zero hr.ne' hcos hx
  · intro hx
    rw [if_neg hx, sq, sq]
    exact Leap.atan2_isAtan2 y x

/-- The third link keeps the orientation `phiE`, so that the wrist is in front of the target by its
length. -/
theorem threeLinks_iff {t1 t2 l1 l2 l3 phiE x y : ℝ} :
    forwardKinematicsModel l1 l2 l3 t1 t2 (phiE - t1 - t2) = (x, y) ↔
      TwoLink.EndsAt l1 l2 t1 t2 (x - l3 * Real.cos phiE) (y - l3 * Real.sin phiE) := by
  have hphi : t1 + t2 + (phiE - t1 - t2) = phiE := by ring
  rw [forwardKinematicsModel, hphi, Prod.mk.injEq]
  exact ⟨fun h => ⟨eq_sub_of_add_eq h.1, eq_sub_of_add_eq h.2⟩,
    fun h => ⟨eq_sub_iff_add_eq.mp h.x, eq_sub_iff_add_eq.mp h.y⟩⟩

/-- In every state the sketch solves for three angles that lead the three links to the target, the
third at the orientation asked for, exactly when the wrist is within reach of the first two and not
right above or below the shoulder. -/
theorem InverseKinematics.threeLinks_ends_iff (s : Vars ℝ) :
    let wristX := solveXWrist (realMaths toInt) s.phiE s.xEndEPos
    let wristY := solveYWrist (realMaths toInt) s.phiE s.yEndEPos
    (∃ t1 t2 t3, (solve (realMaths toInt) s).theta1 = some t1 ∧
        (solve (realMaths toInt) s).theta2 = some t2 ∧
        (solve (realMaths toInt) s).theta3 = some t3 ∧ t1 + t2 + t3 = s.phiE ∧
        forwardKinematicsModel length1 length2 length3 t1 t2 t3 =
          ((s.xEndEPos : ℝ), (s.yEndEPos : ℝ))) ↔
      TwoLink.Reaches (length1 : ℝ) length2 (wristX * wristX + wristY * wristY) ∧ wristX ≠ 0 := by
  intro wristX wristY
  have hlengths : (0 : ℝ) < length1 ∧ (0 : ℝ) < length2 ∧ (length1 : ℝ) ≠ length2 := by
    norm_num [length1, length2]
  rw [← InverseKinematics.wrist_solves_iff toInt hlengths.1 hlengths.2.1 hlengths.2.2]
  constructor
  · rintro ⟨t1, t2, t3, h1, h2, h3, -, hends⟩
    have htheta : t3 = s.phiE - t1 - t2 := by
      have h : solveTheta3 s.phiE (solve (realMaths toInt) s).theta1
          (solve (realMaths toInt) s).theta2 = some t3 := h3
      rw [h1, h2] at h
      exact (Option.some.inj h).symm
    rw [htheta, threeLinks_iff] at hends
    exact ⟨t1, t2, h1, h2, hends⟩
  · rintro ⟨t1, t2, h1, h2, hends⟩
    refine ⟨t1, t2, s.phiE - t1 - t2, h1, h2, ?_, by ring, threeLinks_iff.mpr hends⟩
    change solveTheta3 s.phiE (solve (realMaths toInt) s).theta1
      (solve (realMaths toInt) s).theta2 = _
    have h1' : (solve (realMaths toInt) s).theta1 = some t1 := h1
    have h2' : (solve (realMaths toInt) s).theta2 = some t2 := h2
    rw [h1', h2']
    rfl

end ThreeLinks

/-! ## `sketch_nov24b.ino` -/

section Shovel
variable (toInt : Double ℝ → ℤ)

theorem Shovel.solveGamma_eq {x y : ℝ}
    (hreach : TwoLink.Reaches (length1 : ℝ) length2 (x * x + y * y)) :
    solveGamma (realMaths toInt) (solveLinkage (realMaths toInt) x y) =
      some (TwoLink.shoulderAngle length1 length2 √(x * x + y * y)) := by
  have hlengths : (0 : ℝ) < length1 ∧ (0 : ℝ) < length2 ∧ (length1 : ℝ) ≠ length2 := by
    norm_num [length1, length2]
  have hr : 0 < √(x * x + y * y) := by
    have h := distance_pos hlengths.2.2 hreach
    rwa [sq, sq] at h
  have hsqrt : solveLinkage (realMaths toInt) x y = some √(x * x + y * y) :=
    if_pos (add_nonneg (mul_self_nonneg x) (mul_self_nonneg y))
  have hden : ((2 : ℤ) : ℝ) * length1 * √(x * x + y * y) ≠ 0 := by
    have h1 := hlengths.1
    positivity
  rw [hsqrt, solveGamma, Option.bind_some, divide, if_neg hden, Option.bind_some]
  have hsquare := Real.mul_self_sqrt (add_nonneg (mul_self_nonneg x) (mul_self_nonneg y))
  rw [← hsquare] at hreach
  exact if_pos ((TwoLink.shoulder_range_iff hlengths.1 hlengths.2.1 hr).mpr hreach)

theorem Shovel.reaches_of_solveGamma {x y g : ℝ}
    (h : solveGamma (realMaths toInt) (solveLinkage (realMaths toInt) x y) = some g) :
    TwoLink.Reaches (length1 : ℝ) length2 (x * x + y * y) := by
  have hlengths : (0 : ℝ) < length1 ∧ (0 : ℝ) < length2 := by norm_num [length1, length2]
  have hnonneg := add_nonneg (mul_self_nonneg x) (mul_self_nonneg y)
  have hsqrt : solveLinkage (realMaths toInt) x y = some √(x * x + y * y) := if_pos hnonneg
  rw [hsqrt, solveGamma, Option.bind_some, divide] at h
  have hsquare := Real.mul_self_sqrt hnonneg
  rcases (Real.sqrt_nonneg (x * x + y * y)).eq_or_lt with h0 | hr
  · rw [← h0, mul_zero, if_pos rfl] at h
    cases h
  · have hden : ((2 : ℤ) : ℝ) * length1 * √(x * x + y * y) ≠ 0 := by
      have h1 := hlengths.1
      positivity
    rw [if_neg hden, Option.bind_some] at h
    have hrange := (Titan3DOF.inDomain_some _).mp ((Titan3DOF.acos_isSome_iff toInt (some _)).mp
      (Option.isSome_of_eq_some h))
    rw [TwoLink.shoulder_range_iff hlengths.1 hlengths.2 hr, hsquare] at hrange
    exact hrange

theorem Shovel.solves_of_reaches {s : Vars ℝ}
    (hreach : TwoLink.Reaches (length1 : ℝ) length2
      ((s.xEndEPos : ℝ) * s.xEndEPos + (s.yEndEPos : ℝ) * s.yEndEPos)) :
    Solves length1 length2 s.xEndEPos s.yEndEPos (solve (realMaths toInt) s).theta1
      (solve (realMaths toInt) s).theta2 := by
  have hlengths : (0 : ℝ) < length1 ∧ (0 : ℝ) < length2 ∧ (length1 : ℝ) ≠ length2 := by
    norm_num [length1, length2]
  have hgamma := Shovel.solveGamma_eq toInt hreach
  have hr : 0 < √((s.xEndEPos : ℝ) * s.xEndEPos + (s.yEndEPos : ℝ) * s.yEndEPos) := by
    have h := distance_pos hlengths.2.2 hreach
    rwa [sq, sq] at h
  have hsquare := Real.mul_self_sqrt (add_nonneg (mul_self_nonneg (s.xEndEPos : ℝ))
    (mul_self_nonneg (s.yEndEPos : ℝ)))
  rw [← hsquare] at hreach
  obtain ⟨hx, hy⟩ := Leap.atan2_isAtan2 (s.yEndEPos : ℝ) s.xEndEPos
  have hdist := TwoLink.elbow_distance hlengths.1 hlengths.2.1 hr hreach hx hy
  refine ⟨_, _, ?_, ?_, TwoLink.endsAt_of_elbow Leap.atan2_isAtan2 hlengths.2.1.le hdist⟩
  · change solveTheta1 (realMaths toInt) (solveGamma (realMaths toInt)
      (solveLinkage (realMaths toInt) s.xEndEPos s.yEndEPos)) s.xEndEPos s.yEndEPos = _
    rw [hgamma]
    rfl
  · change solveTheta2 (realMaths toInt) (solveTheta1 (realMaths toInt)
      (solveGamma (realMaths toInt) (solveLinkage (realMaths toInt) s.xEndEPos s.yEndEPos))
      s.xEndEPos s.yEndEPos) length1 s.xEndEPos s.yEndEPos = _
    rw [hgamma]
    rfl

/-- In every state the sketch solves for two angles that lead the arm to the target exactly when
the target is within reach. -/
theorem Shovel.fromElbow_ends_iff (s : Vars ℝ) :
    Solves length1 length2 s.xEndEPos s.yEndEPos (solve (realMaths toInt) s).theta1
        (solve (realMaths toInt) s).theta2 ↔
      TwoLink.Reaches (length1 : ℝ) length2
        ((s.xEndEPos : ℝ) * s.xEndEPos + (s.yEndEPos : ℝ) * s.yEndEPos) := by
  constructor
  · rintro ⟨t1, t2, h1, -, -⟩
    obtain ⟨g, hg, -⟩ := Option.map_eq_some_iff.mp h1
    exact Shovel.reaches_of_solveGamma toInt hg
  · exact Shovel.solves_of_reaches toInt

end Shovel

end TitanRover.Stick
