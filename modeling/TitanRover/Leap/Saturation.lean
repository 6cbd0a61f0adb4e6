import TitanRover.Leap.Targets

/-! # Whether joint 1 is saturated

`solveTheta1` is the difference of two principal arguments and may leave the turn from -180 to 180
degrees that the servo range stands for. `checkPWMBounds` then clamps the position to the lower end
of the range. This happens exactly for the targets that are below the shoulder and nearer than
`LENGTH2` to the end of an upper arm that points backwards. -/
namespace TitanRover.Leap
open Foundations
set_option autoImplicit false

/-! ## The pair that a frame solves -/

section Target
variable {R : Type*} [Field R] (env : Env R)

theorem solution_eq_some {s : Vars R} {p : Joint → R} (h : solution env s = some p) :
    env.solveTheta1 s.xArm s.yArm length1 length2 = some (p .one) := by
  unfold solution at h
  split at h
  · next theta1 theta2 h1 h2 =>
    rw [Option.some.injEq] at h
    rw [h1, ← h]
    rfl
  · exact absurd h (by simp)

variable [LinearOrder R] [FloorRing R]

theorem solved_eq_some {s : Vars R} {r : Reading R} {p : Joint → R} (h : solved env s r = some p) :
    Tracks s r ∧ env.solveTheta1 (targetX r) (targetY r) length1 length2 = some (p .one) := by
  obtain ⟨ht, hsol⟩ := Option.ite_none_right_eq_some.mp h
  have hone := solution_eq_some env hsol
  rw [(start_target env s r).1, (start_target env s r).2] at hone
  exact ⟨ht, hone⟩

/-- A tracking frame keeps the angle of joint 1 in degrees to its end. -/
theorem frame_theta1Deg {s : Vars R} (h : Consistent s) {r : Reading R} (ht : Tracks s r) :
    (frame env s r).theta1Deg = ((frame env s r).theta .one).map (degrees env) := by
  have htrack : ∀ s' : Vars R,
      (track env s').theta1Deg = ((track env s').theta .one).map (degrees env) := by
    intro s'
    unfold track approach leaveFirstCycle
    split_ifs <;> rfl
  have hframe : (frame env s r).theta1Deg =
      (mode env (handValues r) (start env s r)).theta1Deg := rfl
  have htheta : (frame env s r).theta .one =
      (mode env (handValues r) (start env s r)).theta .one := finish_theta _ .one
  rw [hframe, htheta, mode_of_tracks env h ht, htrack]

end Target

/-! ## The servo range of a turn -/

theorem checkPWMBounds_eq_self_iff {R : Type*} [Field R] [LinearOrder R] (PWMSignal : R) :
    checkPWMBounds PWMSignal = PWMSignal ↔ 1000 ≤ PWMSignal ∧ PWMSignal ≤ 2000 := by
  unfold checkPWMBounds
  split_ifs with hlow hhigh
  · exact iff_of_false hlow.ne' fun h => absurd h.1 (not_le.mpr hlow)
  · exact iff_of_false hhigh.ne fun h => absurd h.2 (not_le.mpr hhigh)
  · exact iff_of_true rfl ⟨not_lt.mp hlow, not_lt.mp hhigh⟩

def halfTurn : ℤ := 180

def InTurn (deg : ℝ) : Prop := -(halfTurn : ℝ) ≤ deg ∧ deg ≤ halfTurn

theorem inTurn_iff (deg : ℝ) : InTurn deg ↔ -180 ≤ deg ∧ deg ≤ 180 := by
  rw [InTurn, halfTurn]
  push_cast
  rfl

theorem map_turn (deg : ℝ) :
    1000 ≤ map deg (-180) 180 1000 2000 ∧ map deg (-180) 180 1000 2000 ≤ 2000 ↔ InTurn deg := by
  have hmap : map deg (-180) 180 1000 2000 = 1000 + (deg + 180) * (25 / 9) := by
    rw [map]
    ring
  rw [hmap, inTurn_iff]
  constructor
  · rintro ⟨hlow, hhigh⟩
    exact ⟨by linarith, by linarith⟩
  · rintro ⟨hlow, hhigh⟩
    exact ⟨by linarith, by linarith⟩

theorem degrees_inTurn (theta : ℝ) :
    InTurn (degrees realEnv theta) ↔ -Real.pi ≤ theta ∧ theta ≤ Real.pi := by
  have hpi := Real.pi_pos
  have hdeg : degrees realEnv theta = theta * 180 / Real.pi := (mul_div_assoc _ _ _).symm
  rw [inTurn_iff, hdeg, le_div_iff₀ hpi, div_le_iff₀ hpi]
  constructor
  · rintro ⟨hlow, hhigh⟩
    exact ⟨by linarith, by linarith⟩
  · rintro ⟨hlow, hhigh⟩
    exact ⟨by linarith, by linarith⟩

/-! ## The angle of joint 1 -/

theorem solveTheta1_turn {x y l1 l2 theta : ℝ} (h : solveTheta1 x y l1 l2 = some theta)
    (h2 : 0 < l2) (h12 : l2 < l1) :
    (-Real.pi ≤ theta ∧ theta ≤ Real.pi) ↔
      0 ≤ y ∨ l2 * l2 ≤ (x + l1) * (x + l1) + y * y := by
  obtain ⟨s2, hs2, rfl⟩ := Option.map_eq_some_iff.mp h
  obtain ⟨hroot, hs⟩ := Option.ite_none_right_eq_some.mp hs2
  have hsq := Real.mul_self_sqrt hroot
  rw [Option.some.injEq] at hs
  rw [hs] at hsq
  have hs0 : 0 ≤ s2 := hs ▸ Real.sqrt_nonneg _
  exact TwoLink.shoulder_turn_iff atan2_isAtan2 atan2_principal h2 h12 hs0
    (c2_spec (h2.trans h12).ne' h2.ne') (by linarith)

/-- Joint 1 is aimed at the angle `deg` that the frame solved, and not at a clamped one. -/
structure Unsaturated (s : Vars ℝ) (r : Reading ℝ) (deg : ℝ) : Prop where
  computed : (frame realEnv s r).theta1Deg = some deg
  angle : InTurn deg
  position : 1000 ≤ map deg (-180) 180 1000 2000 ∧ map deg (-180) 180 1000 2000 ≤ 2000
  target : jointTarget realEnv s r .one = map deg (-180) 180 1000 2000

/-- The target is not below the shoulder, or far enough from the end of the upper arm pointing
backwards. -/
def WithinTurn (r : Reading ℝ) : Prop :=
  0 ≤ targetY r ∨
    length2 * length2 ≤ (targetX r + length1) * (targetX r + length1) + targetY r * targetY r

/-- A frame that solves its target aims joint 1 at the solved angle exactly on this condition. -/
theorem unsaturated_iff (events : ℕ → Event ℝ) (n : ℕ) (r : Reading ℝ)
    (hsolved : (solved realEnv (varsAt realEnv events n) r).isSome = true) :
    (∃ deg, Unsaturated (varsAt realEnv events n) r deg) ↔ WithinTurn r := by
  obtain ⟨p, hp⟩ := Option.isSome_iff_exists.mp hsolved
  have hc := varsAt_consistent realEnv events n
  obtain ⟨ht, hone⟩ := solved_eq_some realEnv hp
  have htheta : (frame realEnv (varsAt realEnv events n) r).theta .one = some (p .one) := by
    rw [frame_theta realEnv hc, hp]
    rfl
  have hdeg := frame_theta1Deg realEnv hc ht
  rw [htheta, Option.map_some] at hdeg
  have haim : jointTarget realEnv (varsAt realEnv events n) r .one =
      checkPWMBounds (map (degrees realEnv (p .one)) (-180) 180 1000 2000) :=
    jointTarget_eq realEnv hc ht htheta
  have hturn : InTurn (degrees realEnv (p .one)) ↔ WithinTurn r := by
    rw [degrees_inTurn]
    exact solveTheta1_turn hone (by norm_num [length2]) (by norm_num [length1, length2])
  constructor
  · rintro ⟨deg, h⟩
    have hsame : degrees realEnv (p .one) = deg := Option.some.inj (hdeg.symm.trans h.computed)
    rw [← hturn, hsame]
    exact h.angle
  · intro hwithin
    have hangle := hturn.mpr hwithin
    have hposition := (map_turn _).mpr hangle
    exact ⟨_, hdeg, hangle, hposition, haim.trans ((checkPWMBounds_eq_self_iff _).mpr hposition)⟩

/-! ## Two hands -/

theorem backwardHand_solved (events : ℕ → Event ℝ) :
    (solved realEnv (varsAt realEnv events 0) backwardHand).isSome = true := by
  apply first_solved
  · norm_num [NoHand, backwardHand, hand, handValues, limit, map, int, trunc]
  · norm_num [backwardHand_target.1, backwardHand_target.2]

theorem unsaturated_iff_forward :
    (∃ deg, Unsaturated (varsAt realEnv (fun _ => .frame forwardHand) 0) forwardHand deg) ↔
      WithinTurn forwardHand :=
  unsaturated_iff (fun _ => .frame forwardHand) 0 forwardHand (forwardHand_solved _)

/-- The target (-1080, -360) is solved, but joint 1 is not aimed at the solution. -/
theorem backward_saturated :
    ¬ ∀ (events : ℕ → Event ℝ) (n : ℕ) (r : Reading ℝ),
      (solved realEnv (varsAt realEnv events n) r).isSome = true →
        ∃ deg, Unsaturated (varsAt realEnv events n) r deg := by
  intro hall
  have h := (unsaturated_iff (fun _ => .frame backwardHand) 0 backwardHand
    (backwardHand_solved _)).mp (hall _ 0 backwardHand (backwardHand_solved _))
  rw [WithinTurn, backwardHand_target.1, backwardHand_target.2] at h
  norm_num [length1, length2] at h

end TitanRover.Leap
