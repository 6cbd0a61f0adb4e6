import TitanRover.Leap.Frame
import TitanRover.Leap.Kinematics

/-! # The range of the commands sent

`checkPWMBounds` bounds the positions that are aimed at, and not the ones that are sent: the slow
increment, the nudges and the wrist rotation move a command by 1 to 4 from wherever it is. The
commands of a run stay in the servo range exactly when every frame finds them far enough from its
limits for the frame's own moves. -/
namespace TitanRover.Leap
open Foundations
set_option autoImplicit false

def servoLow : ℤ := 1000
def servoHigh : ℤ := 2000

def InServoRange (command : ℤ) : Prop := servoLow ≤ command ∧ command ≤ servoHigh

def InRange (m : Message) : Prop :=
  InServoRange m.joint1PWM ∧ InServoRange m.joint2PWM ∧ InServoRange m.wrist ∧
    InServoRange m.gripper

section Range
variable {R : Type*} [Field R] [LinearOrder R]

/-- A position `p` is far enough from the limits to be moved by `move`. The number sent is
truncated, so that the upper limit is one above the highest command. -/
def Room (p move : R) : Prop := (servoLow : R) - move ≤ p ∧ p < servoHigh + 1 - move

variable [FloorRing R] (env : Env R)

/-- The frame finds each command far enough from the limits for the way it moves it. -/
structure KeepsRange (s : Vars R) (r : Reading R) : Prop where
  joint : ∀ j, Room (jointFrom env s r j) (jointMove env s r j)
  wrist : Room s.wrist (wristMove s r)
  gripper : Room s.gripper (gripperMove s r)

variable [IsStrictOrderedRing R]

theorem int_inServoRange (r : R) :
    InServoRange (int (some r)) ↔ (servoLow : R) ≤ r ∧ r < servoHigh + 1 := by
  rw [← le_trunc_iff (by decide), ← trunc_le_iff (by decide)]
  simp only [InServoRange, int, servoLow, servoHigh]
  omega

theorem room_iff (p move : R) : Room p move ↔ InServoRange (int (some (p + move))) := by
  rw [int_inServoRange, Room, sub_le_iff_le_add, lt_sub_iff_add_lt]

theorem message_inRange_iff {s : Vars R} (h : Consistent s) (r : Reading R) :
    InRange (draw env s r).2 ↔ KeepsRange env s r := by
  have hj : ∀ j, int ((frame env s r).PWM j) =
      int (some (jointFrom env s r j + jointMove env s r j)) := by
    intro j
    rw [frame_joint env h]
  have h1 := hj .one
  have h2 := hj .two
  simp only [Vars.PWM] at h1 h2
  unfold InRange draw message
  simp only [h1, h2, frame_wrist env h, frame_gripper env h, ← room_iff]
  constructor
  · rintro ⟨hone, htwo, hwrist, hgripper⟩
    exact ⟨fun j => by cases j <;> assumption, hwrist, hgripper⟩
  · rintro ⟨hjoint, hwrist, hgripper⟩
    exact ⟨hjoint .one, hjoint .two, hwrist, hgripper⟩

theorem commands_inRange_iff (events : ℕ → Event R) :
    (∀ n m, sent env events n = some m → InRange m) ↔
      ∀ n r, events n = .frame r → KeepsRange env (varsAt env events n) r := by
  constructor
  · intro h n r hr
    rw [← message_inRange_iff env (varsAt_consistent env events n)]
    exact h n _ (by simp [sent, hr])
  · intro h n m hm
    unfold sent at hm
    split at hm
    · next r hr =>
      rw [Option.some.injEq] at hm
      rw [← hm, message_inRange_iff env (varsAt_consistent env events n)]
      exact h n r hr
    · exact absurd hm (by simp)
    · exact absurd hm (by simp)

end Range

/-! ## The wrist key held down -/

/-- A hand rolled by one radian, which turns the wrist counter-clockwise. -/
def rolled : Reading ℝ where
  palmY := 0
  palmZ := 0
  pitch := 0
  roll := 1
  ff1 := 0
  ff2 := 0

def wristHeld : ℕ → Event ℝ
  | 0 => .press 'g'
  | 1 => .press 'h'
  | _ + 2 => .frame rolled

theorem commands_inRange_iff_wristHeld :
    (∀ n m, sent realEnv wristHeld n = some m → InRange m) ↔
      ∀ n r, wristHeld n = .frame r → KeepsRange realEnv (varsAt realEnv wristHeld n) r :=
  commands_inRange_iff realEnv wristHeld

theorem wristHeld_keys (n : ℕ) : (varsAt realEnv wristHeld (n + 2)).toKeys =
    keyPressed 'h' (keyPressed 'g' (init : Vars ℝ).toKeys) := by
  induction n with
  | zero => rfl
  | succ n ih => exact (draw_keys realEnv _ rolled).trans ih

theorem wristMove_rolled {s : Vars ℝ}
    (h : s.toKeys = keyPressed 'h' (keyPressed 'g' (init : Vars ℝ).toKeys)) :
    wristMove s rolled = -3 := by
  have hroll : (handValues rolled).rollR = 300 / 7 := by
    norm_num [handValues, rolled, map]
  have hreset : s.reset = false := by rw [h]; decide
  have hmode : s.wristGripperMode = true := by rw [h]; decide
  have honline : s.wristOnline = true := by rw [h]; decide
  rw [wristMove, if_pos ⟨hreset, hmode, honline⟩, hroll]
  norm_num [wristTurn, TurnsCCW, oneToOneSlowIncrementFactor]

theorem wristHeld_wrist (n : ℕ) :
    (varsAt realEnv wristHeld (n + 2)).wrist = 1500 - 3 * n := by
  induction n with
  | zero =>
    rw [Nat.cast_zero, mul_zero, sub_zero]
    rfl
  | succ n ih =>
    have hframe := frame_wrist realEnv (varsAt_consistent realEnv wristHeld (n + 2)) rolled
    rw [wristMove_rolled (wristHeld_keys n), ih] at hframe
    have hstep : (varsAt realEnv wristHeld (n + 1 + 2)).wrist =
        (frame realEnv (varsAt realEnv wristHeld (n + 2)) rolled).wrist := rfl
    rw [hstep, hframe]
    push_cast
    ring

/-- The 167th frame of a held wrist key sends 999. -/
theorem wrist_leaves_range :
    ∃ m, sent realEnv wristHeld 168 = some m ∧ m.wrist = 999 ∧ ¬ InRange m := by
  have hframe := frame_wrist realEnv (varsAt_consistent realEnv wristHeld 168) rolled
  rw [wristMove_rolled (wristHeld_keys 166), wristHeld_wrist 166] at hframe
  have hwrist : (draw realEnv (varsAt realEnv wristHeld 168) rolled).2.wrist = 999 := by
    change int (some (frame realEnv (varsAt realEnv wristHeld 168) rolled).wrist) = 999
    rw [hframe]
    norm_num [int, trunc]
  refine ⟨_, rfl, hwrist, fun h => ?_⟩
  have hle := h.2.2.1.1
  rw [hwrist, servoLow] at hle
  omega

end TitanRover.Leap
