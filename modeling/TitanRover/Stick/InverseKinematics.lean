import TitanRover.Stick.Maths
import TitanRover.Stick.Steering

/-! # `InverseKinematicsRoboticArm.ino`

The sketch for three joints. It tests the limits of the target only in iterations that do not move
it, see `TitanRover.Stick.Limits`. -/
namespace TitanRover.Stick.InverseKinematics
open TitanRover.Arduino Foundations Foundations.Run
set_option autoImplicit false

section Sketch
variable {R : Type*} [Field R]

def length1 : ℤ := 900
def length2 : ℤ := 1050
def length3 : ℤ := 350

def solveTheta1 [DecidableEq R] (m : Maths R) (x y l1 l2 : R) : Double R :=
  ((shoulderCosine m x y l1 l2).bind m.acos).map (fun a =>
    m.atan2 y (if x = 0 then 1 else x) - a)

def solveTheta2 [DecidableEq R] (m : Maths R) (x y l1 l2 : R) : Double R :=
  ((elbowCosine x y l1 l2).bind m.acos).map (fun a => m.PI - a)

def solveTheta3 (phiE : R) (theta1 theta2 : Double R) : Double R :=
  theta1.bind (fun t1 => theta2.map (fun t2 => phiE - t1 - t2))

def solveXWrist (m : Maths R) (phiE x : R) : R := x - length3 * m.cos phiE
def solveYWrist (m : Maths R) (phiE y : R) : R := y - length3 * m.sin phiE

def steering : Steering Axis where
  flag := Axis.flag
  mask := logicalOr xCoordFlag yCoordFlag
  channel := id
  move := fun _ => advanceOrClip 2300
  move_congr := fun _ => advanceOrClip_congr 2300

structure Vars (R : Type*) extends Guide Axis where
  phiE : R
  theta1 : Double R
  theta2 : Double R
  theta3 : Double R
  usAJNT1 : ℤ
  usAJNT2 : ℤ
  usENDE : ℤ
  servos : Servo → BitVec 16

def setup (servos : Servo → BitVec 16) : Vars R where
  toGuide := Guide.init
  phiE := 0
  theta1 := some 0
  theta2 := some 0
  theta3 := some 0
  usAJNT1 := 0
  usAJNT2 := 0
  usENDE := 0
  servos := applyWrites servos
    [(.armJoint1, centerSignal), (.armJoint2, centerSignal), (.endeJoint, endeSignal)]

variable (m : Maths R)

def solve [DecidableEq R] (s : Vars R) : Vars R :=
  let xWristPos := solveXWrist m s.phiE s.xEndEPos
  let yWristPos := solveYWrist m s.phiE s.yEndEPos
  let theta1 := solveTheta1 m xWristPos yWristPos length1 length2
  let theta2 := solveTheta2 m xWristPos yWristPos length1 length2
  { s with theta1 := theta1, theta2 := theta2, theta3 := solveTheta3 s.phiE theta1 theta2 }

def command (s : Vars R) : Vars R :=
  let theta1Deg := degrees m s.theta1
  let theta2Deg := degrees m s.theta2
  let theta3Deg := degrees m s.theta3
  if InBounds theta1Deg ∧ InBounds theta2Deg ∧ InBounds theta3Deg then
    let usAJNT1 := Arduino.map theta1Deg (-180) 180 1000 2000
    let usAJNT2 := Arduino.map theta2Deg (-180) 180 1000 2000
    let usENDE := Arduino.map theta3Deg (-180) 180 1400 1800
    { s with
      usAJNT1 := usAJNT1
      usAJNT2 := usAJNT2
      usENDE := usENDE
      servos := applyWrites s.servos
        (setSpeed .armJoint1 usAJNT1 ++ setSpeed .armJoint2 (mirror usAJNT2) ++
          setSpeed .endeJoint usENDE) }
  else s

/-- The state at the end of the position update. -/
def updated (s : Vars R) (sh : Shared Axis) : Vars R :=
  { s with toGuide := steering.update s.toGuide sh }

def loop [DecidableEq R] (s : Vars R) (sh : Shared Axis) : Vars R :=
  { command m (solve m (updated s sh)) with bUpdateFlags := 0 }

def varsAt [DecidableEq R] (servos : Servo → BitVec 16) (inp : ℕ → Shared Axis) : ℕ → Vars R :=
  stateAt (loop m) (setup servos) inp

theorem loop_guide [DecidableEq R] (s : Vars R) (sh : Shared Axis) :
    (loop m s sh).toGuide = steering.step s.toGuide sh := by
  unfold loop command
  dsimp only
  split_ifs <;> rfl

theorem varsAt_guide [DecidableEq R] (servos : Servo → BitVec 16) (inp : ℕ → Shared Axis) (n : ℕ) :
    (varsAt m servos inp n).toGuide = steering.guideAt inp n :=
  stateAt_map (loop m) (setup servos) inp (fun s => s.toGuide) id (loop_guide m) n

theorem interrupted_run [DecidableEq R] (servos : Servo → BitVec 16)
    (events : List (Option (Interrupt Axis))) :
    ∃ inp n, (events.foldl (Snapshot.act (system Axis.handler (loop m)))
      (Radio.init, setup servos)).2 = varsAt m servos inp n :=
  interleaving_refines Axis.handler (loop m) (setup servos) events

end Sketch

end TitanRover.Stick.InverseKinematics
