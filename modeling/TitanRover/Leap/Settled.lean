import TitanRover.Leap.Saturation
import TitanRover.Leap.Sent

/-! # What a hand held still settles

The slow increment does not settle a command, but it brings it within a step of its target and keeps
it there. After a number of frames that only the nudges before them can raise, every joint number
sent is therefore near the position of the pose aimed at, and the pose is the solved one. -/
namespace TitanRover.Leap
open Foundations
set_option autoImplicit false

section Settled
variable {R : Type*} [Field R] [LinearOrder R] [FloorRing R] [IsStrictOrderedRing R] (env : Env R)
variable {events : ℕ → Event R} {n : ℕ} {r : Reading R}

/-- The servo range and a step: how far a command may be from its target, but for the nudges. -/
def reach : ℤ := 1003

/-- `k` frames are enough for the way of each joint. -/
def Enough (events : ℕ → Event R) (n k : ℕ) : Prop :=
  ∀ j, reach + framesWith env events (Nudged j) n < slowStep * (k + 1)

theorem checkPWMBounds_centred (PWMSignal : R) :
    |checkPWMBounds PWMSignal - (servoCentre : ℤ)| ≤ ((500 : ℤ) : R) := by
  have hnear := checkPWMBounds_near PWMSignal
  norm_num [band, oneToOneSlowIncrementFactor] at hnear ⊢
  linarith

theorem jointTarget_centred (s : Vars R) (r : Reading R) (j : Joint) :
    |jointTarget env s r j - (servoCentre : ℤ)| ≤ ((500 : ℤ) : R) := by
  cases j <;> exact checkPWMBounds_centred _

theorem command_distance (s : Vars R) (r : Reading R) (j : Joint) {p : R}
    (hp : (varsAt env events n).PWM j = some p) :
    |p - jointTarget env s r j| ≤ ((reach + framesWith env events (Nudged j) n : ℤ) : R) := by
  have hnear := varsAt_joint_near env events j n
  rw [hp, Option.getD_some] at hnear
  have htarget := jointTarget_centred env s r j
  rw [abs_sub_comm] at htarget
  have hsum : (band : ℤ) + framesWith env events (Nudged j) n + 500 =
      reach + framesWith env events (Nudged j) n := by
    simp only [band, reach]
    ring
  rw [← hsum, Int.cast_add]
  exact (abs_sub_le p (servoCentre : ℤ) _).trans (add_le_add hnear htarget)

theorem Steady.settled_PWM (h : Steady env events n r) {k m : ℕ} (hk : Enough env events n k)
    (hm : k ≤ m) (j : Joint) : ∃ p, (varsAt env events (n + m)).PWM j = some p ∧
      |p - jointTarget env (varsAt env events n) r j| < oneToOneSlowIncrementFactor := by
  obtain ⟨p, hp⟩ := Option.isSome_iff_exists.mp ((varsAt_consistent env events n).defined j)
  refine ⟨_, steady_hand env h hp m, ?_⟩
  rw [slowIncrementPWM_step]
  apply Approach.iterate_arrives slowFactor_pos (k := k) _ hm
  have hway : ((reach + framesWith env events (Nudged j) n : ℤ) : R) <
      ((slowStep * (k + 1) : ℤ) : R) := Int.cast_lt.mpr (hk j)
  rw [nsmul_eq_mul, oneToOneSlowIncrementFactor]
  apply (command_distance env _ r j hp).trans_lt (hway.trans_eq _)
  rw [slowStep]
  push_cast
  ring

/-- A command near the servo range is sent to within one. -/
theorem abs_int_sub_lt {p : R} (h : |p - (servoCentre : ℤ)| ≤ (band : ℤ)) :
    |(int (some p) : R) - p| < 1 := by
  have htrunc := abs_trunc_sub_le h
  rw [trunc_intCast, abs_le] at htrunc
  simp only [servoCentre, band] at htrunc
  have hint : int (some p) = trunc p := by
    rw [int]
    omega
  rw [hint]
  exact abs_trunc_sub_self_lt p

theorem Steady.settled_joint (h : Steady env events n r) {k n' : ℕ} (hk : Enough env events n k)
    (hn : n + k ≤ n' + 1) {m : Message} (hm : sent env events n' = some m) (j : Joint) :
    |(m.joint j : R) - jointTarget env (varsAt env events n) r j| < 4 := by
  obtain ⟨d, hd⟩ := Nat.exists_eq_add_of_le (Nat.le_of_add_right_le hn)
  obtain ⟨p, hp, hclose⟩ := h.settled_PWM env hk (m := d) (by omega) j
  have hcentre := jointTarget_centred env (varsAt env events n) r j
  have hnear : |p - (servoCentre : ℤ)| ≤ ((band : ℤ) : R) := by
    rw [oneToOneSlowIncrementFactor] at hclose
    calc |p - (servoCentre : ℤ)| ≤ 3 + ((500 : ℤ) : R) :=
          (abs_sub_le p _ _).trans (add_le_add hclose.le hcentre)
      _ = (band : ℤ) := by norm_num [band]
  rw [(sent_carries env hm).joint, hd, hp]
  calc |(int (some p) : R) - jointTarget env (varsAt env events n) r j|
      ≤ |(int (some p) : R) - p| + |p - jointTarget env (varsAt env events n) r j| :=
        abs_sub_le _ _ _
    _ < 1 + oneToOneSlowIncrementFactor := add_lt_add (abs_int_sub_lt hnear) hclose
    _ = 4 := by norm_num [oneToOneSlowIncrementFactor]

end Settled

/-! ## The angle of a pulse -/

/-- A joint number of the given range mapped back to a turn. -/
noncomputable def degreesOf (pwm low high : ℝ) : ℝ :=
  map pwm low high (-((180 : ℤ) : ℝ)) ((180 : ℤ) : ℝ)

/-- The angle that the sketch stands for by a joint number. Joint 2 turns the other way. -/
noncomputable def jointAngle (pwm : ℝ) : Joint → ℝ
  | .one => degreesOf pwm ((1000 : ℤ) : ℝ) ((2000 : ℤ) : ℝ) * (Real.pi / ((180 : ℤ) : ℝ))
  | .two => degreesOf pwm ((2000 : ℤ) : ℝ) ((1000 : ℤ) : ℝ) * (Real.pi / ((180 : ℤ) : ℝ))

theorem jointAngle_sub (p q : ℝ) (j : Joint) :
    |jointAngle p j - jointAngle q j| = |p - q| * (Real.pi / 500) := by
  have hpi : (0 : ℝ) ≤ Real.pi / 500 := by positivity
  cases j with
  | one =>
    have h : jointAngle p .one - jointAngle q .one = (p - q) * (Real.pi / 500) := by
      simp only [jointAngle, degreesOf, map]
      push_cast
      ring
    rw [h, abs_mul, abs_of_nonneg hpi]
  | two =>
    have h : jointAngle p .two - jointAngle q .two = (q - p) * (Real.pi / 500) := by
      simp only [jointAngle, degreesOf, map]
      push_cast
      ring
    rw [h, abs_mul, abs_of_nonneg hpi, abs_sub_comm]

/-- An angle within a turn is not clamped. -/
theorem jointAngle_position {theta : ℝ} (h : -Real.pi ≤ theta ∧ theta ≤ Real.pi) (j : Joint) :
    jointAngle (jointPosition realEnv theta j) j = theta := by
  have hpi := Real.pi_pos.ne'
  have hrange := (map_turn _).mpr ((degrees_inTurn theta).mpr h)
  cases j with
  | one =>
    rw [jointPosition, joint1Position, (checkPWMBounds_eq_self_iff _).mpr hrange, jointAngle]
    simp only [degreesOf, map, degrees, realEnv]
    push_cast
    field_simp
    ring
  | two =>
    have hmirror : map (degrees realEnv theta) (-180) 180 2000 1000 =
        3000 - map (degrees realEnv theta) (-180) 180 1000 2000 := by
      simp only [map]
      ring
    have hrange' : 1000 ≤ map (degrees realEnv theta) (-180) 180 2000 1000 ∧
        map (degrees realEnv theta) (-180) 180 2000 1000 ≤ 2000 := by
      rw [hmirror]
      exact ⟨by linarith, by linarith⟩
    rw [jointPosition, joint2Position, (checkPWMBounds_eq_self_iff _).mpr hrange', jointAngle]
    simp only [degreesOf, map, degrees, realEnv]
    push_cast
    field_simp
    ring

end TitanRover.Leap
