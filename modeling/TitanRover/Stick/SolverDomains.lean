import TitanRover.Foundations.TwoLink
import TitanRover.Stick.Titan3DOF

/-! # The domains of the two solvers

`Titan16_3DOF.ino` commands the joints if either solution is defined. The two cosines come from
different angles of the same triangle, so they are in the domain of `acos` together: at no target is
only one of the solutions NaN. -/
namespace TitanRover.Stick.Titan3DOF
open Foundations
set_option autoImplicit false

/-- An argument that `acos` is defined on. -/
def InDomain (c : Double ℝ) : Prop := ∃ v, c = some v ∧ -1 ≤ v ∧ v ≤ 1

theorem inDomain_some (v : ℝ) : InDomain (some v) ↔ -1 ≤ v ∧ v ≤ 1 := by
  constructor
  · rintro ⟨u, hu, h⟩
    rwa [← Option.some.inj hu] at h
  · exact fun h => ⟨v, rfl, h⟩

theorem not_inDomain_none : ¬ InDomain none := by
  rintro ⟨v, hv, -⟩
  exact absurd hv (by simp)

section Targets
variable (toInt : Double ℝ → ℤ) {x y l1 l2 : ℝ}

theorem acos_isSome_iff (c : Double ℝ) :
    (c.bind (realMaths toInt).acos).isSome = true ↔ InDomain c := by
  cases c with
  | none => exact iff_of_false (by simp) not_inDomain_none
  | some v =>
    rw [inDomain_some, Option.bind_some, realMaths]
    dsimp only
    split_ifs with h
    · exact iff_of_true rfl h
    · exact iff_of_false (by simp) h

theorem elbowCosine_inDomain (h1 : 0 < l1) (h2 : 0 < l2) :
    InDomain (elbowCosine x y l1 l2) ↔ TwoLink.Reaches l1 l2 (x * x + y * y) := by
  have hne : ((2 : ℤ) : ℝ) * l1 * l2 ≠ 0 := by positivity
  have hnum : l1 ^ 2 + l2 ^ 2 - x ^ 2 - y ^ 2 = l1 * l1 + l2 * l2 - (x * x + y * y) := by ring
  rw [elbowCosine, divide, if_neg hne, hnum, inDomain_some, TwoLink.elbow_range_iff h1 h2]

/-- At the shoulder itself the cosine is not defined, and two links of different lengths cannot
fold onto it. -/
theorem shoulderCosine_inDomain (h1 : 0 < l1) (h2 : 0 < l2) (hne : l1 ≠ l2) :
    InDomain (shoulderCosine (realMaths toInt) x y l1 l2) ↔
      TwoLink.Reaches l1 l2 (x * x + y * y) := by
  have hdist : x ^ 2 + y ^ 2 = √(x ^ 2 + y ^ 2) * √(x ^ 2 + y ^ 2) :=
    (Real.mul_self_sqrt (by positivity)).symm
  have hsq : x * x + y * y = √(x ^ 2 + y ^ 2) * √(x ^ 2 + y ^ 2) := by rw [← hdist, sq, sq]
  have hsqrt : (realMaths toInt).sqrt (x ^ 2 + y ^ 2) = some √(x ^ 2 + y ^ 2) :=
    if_pos (by positivity)
  rw [shoulderCosine, hsqrt, Option.bind_some, hsq, divide]
  have hnonneg := Real.sqrt_nonneg (x ^ 2 + y ^ 2)
  generalize √(x ^ 2 + y ^ 2) = r at hdist hnonneg
  rcases hnonneg.eq_or_lt with rfl | hr
  · rw [mul_zero, mul_zero, if_pos rfl]
    exact iff_of_false not_inDomain_none (TwoLink.not_reaches_zero hne)
  · have hden : ((2 : ℤ) : ℝ) * l1 * r ≠ 0 := by positivity
    have hnum : x ^ 2 + y ^ 2 + l1 ^ 2 - l2 ^ 2 = r * r + l1 * l1 - l2 * l2 := by
      rw [hdist, sq, sq]
    rw [if_neg hden, hnum, inDomain_some, TwoLink.shoulder_range_iff h1 h2 hr]

theorem solveTheta1_isSome_iff :
    (solveTheta1 (realMaths toInt) x y l1 l2).isSome = true ↔
      InDomain (shoulderCosine (realMaths toInt) x y l1 l2) := by
  rw [solveTheta1, Option.isSome_map, acos_isSome_iff]

theorem solveTheta2_isSome_iff :
    (solveTheta2 (realMaths toInt) x y l1 l2).isSome = true ↔ InDomain (elbowCosine x y l1 l2) := by
  rw [solveTheta2, Option.isSome_map, acos_isSome_iff]

theorem solved_iff (h1 : 0 < l1) (h2 : 0 < l2) (hne : l1 ≠ l2) :
    (solveTheta1 (realMaths toInt) x y l1 l2).isSome = true ↔
      (solveTheta2 (realMaths toInt) x y l1 l2).isSome = true := by
  rw [solveTheta1_isSome_iff, solveTheta2_isSome_iff, shoulderCosine_inDomain toInt h1 h2 hne,
    elbowCosine_inDomain h1 h2]

/-- The state with the angles that the sketch's own solvers give. -/
noncomputable def sketchAngles (s : Vars ℝ) (sh : Shared Axis) : Vars ℝ :=
  angles s { shared := sh, solver := solver (realMaths toInt) }

/-- The solutions for a target and lengths, and what the guard of `loop` lets through. -/
structure SolvedTogether (x y l1 l2 : ℝ) : Prop where
  cosines : InDomain (shoulderCosine (realMaths toInt) x y l1 l2) ↔ InDomain (elbowCosine x y l1 l2)
  undefined : solveTheta1 (realMaths toInt) x y l1 l2 = none ↔
    solveTheta2 (realMaths toInt) x y l1 l2 = none
  guard : ∀ (s : Vars ℝ) (sh : Shared Axis),
    (sketchAngles toInt s sh).theta1.isSome = true ∨ (sketchAngles toInt s sh).theta2.isSome = true →
    (sketchAngles toInt s sh).theta1.isSome = true ∧ (sketchAngles toInt s sh).theta2.isSome = true

theorem solved_together (h1 : 0 < l1) (h2 : 0 < l2) (hne : l1 ≠ l2) :
    SolvedTogether toInt x y l1 l2 := by
  refine ⟨?_, ?_, ?_⟩
  · rw [shoulderCosine_inDomain toInt h1 h2 hne, elbowCosine_inDomain h1 h2]
  · rw [← Option.not_isSome_iff_eq_none, ← Option.not_isSome_iff_eq_none,
      solved_iff toInt h1 h2 hne]
  · intro s sh hguard
    have hlengths : (0 : ℝ) < length1 ∧ (0 : ℝ) < length2 ∧ (length1 : ℝ) ≠ length2 := by
      norm_num [length1, length2]
    have hsame : (sketchAngles toInt s sh).theta1.isSome = true ↔
        (sketchAngles toInt s sh).theta2.isSome = true :=
      solved_iff toInt hlengths.1 hlengths.2.1 hlengths.2.2
    exact hguard.elim (fun h => ⟨h, hsame.mp h⟩) (fun h => ⟨hsame.mpr h, h⟩)

end Targets

theorem solved_together_sketch : SolvedTogether (fun _ => 0) 1000 500 900 1100 :=
  solved_together (fun _ => 0) (by norm_num) (by norm_num) (by norm_num)

end TitanRover.Stick.Titan3DOF
