import Mathlib
import TitanRover.Foundations.Run
import TitanRover.Foundations.Truncation
import TitanRover.Leap.Message

/-! # The Leap Motion sketch

The model of `leap_motion_udp.pde`: `draw` as the sequence of its parts, `keyPressed` and
`keyReleased`, and the messages a run of these events sends. Floats are exact numbers of an ordered
field; the ones that the inverse kinematics can make undefined are in `Num`. The solvers and the
trigonometric functions are parameters. What is drawn on the screen is left out, but not the
coordinates it is drawn from. -/
namespace TitanRover.Leap
open Foundations
set_option autoImplicit false

/-! ## Numbers -/

/-- A `float` that may be NaN, which is `none`. -/
abbrev Num (R : Type*) := Option R

section Arithmetic
variable {R : Type*} [Field R] [LinearOrder R]

def map (value start1 stop1 start2 stop2 : R) : R :=
  start2 + (stop2 - start2) * ((value - start1) / (stop1 - start1))

/-- Conversion to `int`: truncated, saturated, and 0 for NaN. -/
def int [FloorRing R] : Num R → ℤ
  | none => 0
  | some r => max (-2 ^ 31) (min (2 ^ 31 - 1) (trunc r))

def checkPWMBounds (PWMSignal : R) : R :=
  if PWMSignal < 1000 then 1000
  else if PWMSignal > 2000 then 2000
  else PWMSignal

def oneToOneSlowIncrementFactor : R := 3

def slowIncrementPWM (joint pastJoint : R) : R :=
  if joint > pastJoint then pastJoint + oneToOneSlowIncrementFactor
  else if joint < pastJoint then pastJoint - oneToOneSlowIncrementFactor
  else pastJoint

/-- `slowIncrementPWM` on values that may be NaN, which every comparison refuses. -/
def slowIncrement : Num R → Num R → Num R
  | some joint, some pastJoint => some (slowIncrementPWM joint pastJoint)
  | _, pastJoint => pastJoint

end Arithmetic

/-! ## State -/

/-- What the sketch takes from outside: the constant and functions of the mathematics library, and
the two solvers, which return NaN for a target out of reach. -/
structure Env (R : Type*) where
  PI : R
  sin : R → R
  cos : R → R
  solveTheta1 : R → R → R → R → Num R
  solveTheta2 : R → R → R → R → Num R

/-- One frame of the Leap controller: palm position and direction of the right hand, and the tip
positions of two of its fingers. -/
structure Reading (R : Type*) where
  palmY : R
  palmZ : R
  pitch : R
  roll : R
  ff1 : R
  ff2 : R

/-- The variables that only the key handlers assign. -/
structure Keys where
  shoulderOrientation : ℤ
  lazySusanOrientation : ℤ
  joint1Increment : Bool
  joint1Decrement : Bool
  joint2Increment : Bool
  joint2Decrement : Bool
  wristGripperMode : Bool
  wristOnline : Bool
  gripperOnline : Bool
  reset : Bool
  deriving DecidableEq

structure Vars (R : Type*) extends Keys where
  joint2X : ℤ
  joint2Y : ℤ
  endeX : ℤ
  endeY : ℤ
  pastJoint2X : ℤ
  pastJoint2Y : ℤ
  pastEndeX : ℤ
  pastEndeY : ℤ
  xArm : R
  yArm : R
  wrist : R
  gripper : R
  pastX : R
  pastY : R
  pastWrist : R
  pastGripper : R
  theta1 : Num R
  theta2 : Num R
  theta1Deg : Num R
  theta2Deg : Num R
  pastTheta1 : Num R
  pastTheta2 : Num R
  joint1PWM : Num R
  joint2PWM : Num R
  pastJoint1PWM : Num R
  pastJoint2PWM : Num R
  wristCW : Bool
  wristCCW : Bool
  wristOrientation : ℤ
  firstLoopCycle : Bool
  oneToOneSlow : Bool

/-! ## Keys -/

def keyPressed (key : Char) (k : Keys) : Keys :=
  let k := if key = 'r' then { k with reset := true } else k
  let k := if key = 'a' then { k with joint1Increment := true }
    else if key = 'z' then { k with joint1Decrement := true } else k
  let k := if key = 's' then { k with joint2Increment := true }
    else if key = 'x' then { k with joint2Decrement := true } else k
  let k := { k with
    lazySusanOrientation := if key = 'A' then 1 else if key = 'D' then 2 else 0
    shoulderOrientation := if key = 'W' then 2 else if key = 'S' then 1 else 0 }
  if key = 'g' then { k with wristGripperMode := !k.wristGripperMode }
  else if key = 'h' then { k with wristOnline := true }
  else if key = 'j' then { k with gripperOnline := true }
  else k

def keyReleased (key : Char) (k : Keys) : Keys :=
  let k := if key = 'h' then { k with wristOnline := false } else k
  let k := if key = 'j' then { k with gripperOnline := false } else k
  let k := if key = 'a' then { k with joint1Increment := false }
    else if key = 'z' then { k with joint1Decrement := false } else k
  let k := if key = 's' then { k with joint2Increment := false }
    else if key = 'x' then { k with joint2Decrement := false } else k
  { k with reset := false, shoulderOrientation := 0, lazySusanOrientation := 0 }

section Sketch
variable {R : Type*} [Field R] [LinearOrder R] [FloorRing R]

def length1 : R := 1000
def length2 : R := 800
def joint1Reset : R := 1700
def joint2Reset : R := 1700

def init : Vars R where
  joint2X := 850
  joint2Y := 350
  endeX := 900
  endeY := 250
  pastJoint2X := 0
  pastJoint2Y := 0
  pastEndeX := 0
  pastEndeY := 0
  xArm := 0
  yArm := 0
  wrist := 1500
  gripper := 1500
  pastX := 0
  pastY := 0
  pastWrist := 0
  pastGripper := 0
  theta1 := some 0
  theta2 := some 0
  theta1Deg := some 0
  theta2Deg := some 0
  pastTheta1 := some 0
  pastTheta2 := some 0
  joint1PWM := some joint1Reset
  joint2PWM := some joint2Reset
  pastJoint1PWM := some 0
  pastJoint2PWM := some 0
  wristCW := false
  wristCCW := false
  wristOrientation := 0
  shoulderOrientation := 0
  lazySusanOrientation := 0
  firstLoopCycle := true
  oneToOneSlow := true
  joint1Increment := false
  joint1Decrement := false
  joint2Increment := false
  joint2Decrement := false
  wristGripperMode := false
  wristOnline := false
  gripperOnline := false
  reset := false

/-! ## `draw`: the hand -/

structure HandValues (R : Type*) where
  rollR : R
  zv : R
  yv : R
  pv : R
  gv : R

/-- Two assignments: below the lower bound, then above the upper one. -/
def limit (x low high : R) : R :=
  let x := if x < low then low else x
  if x > high then high else x

def handValues (r : Reading R) : HandValues R where
  rollR := map (r.roll * 100) (-300) 400 100 0
  zv := map (limit r.palmZ (-180) 180) (-180) 180 101 1
  yv := map (limit r.palmY 150 445) 150 445 1 101
  pv := map (r.pitch * 100) (-90) 100 160 6
  gv := map (r.ff1 - r.ff2) 20 90 145 73

def aim (h : HandValues R) (s : Vars R) : Vars R :=
  let yArm := map (int (some h.yv) : R) 1 101 (-1800) 1800
  let xArm := map (int (some h.zv) : R) 1 101 (-1800) 1800
  { s with
    yArm := yArm
    xArm := xArm
    endeY := int (some (map yArm (-1800) 1800 600 200))
    endeX := int (some (map xArm (-1800) 1800 500 1000))
    wristCW := false
    wristCCW := false }

/-- The source assigns `pastJoint2Y` twice here and `pastJoint2X` not at all. -/
def firstCycle (env : Env R) (s : Vars R) : Vars R :=
  if s.firstLoopCycle then
    { s with
      pastY := s.yArm
      pastX := s.xArm
      pastWrist := s.wrist
      theta1 := some (env.PI / 2)
      theta2 := some (env.PI / 2)
      pastTheta1 := some (env.PI / 2)
      pastTheta2 := some (env.PI / 2)
      pastEndeY := s.endeY
      pastEndeX := s.endeX
      pastJoint2Y := 0
      pastGripper := s.gripper }
  else s

/-! ## `draw`: the four modes -/

def resetJoints (s : Vars R) : Vars R :=
  { s with joint1PWM := some joint1Reset, joint2PWM := some joint2Reset }

def TurnsCCW (wrst : R) : Prop := wrst < 70 ∧ wrst > 40
def TurnsCW (wrst : R) : Prop := wrst > 0 ∧ wrst ≤ 40

instance (wrst : R) : Decidable (TurnsCCW wrst) := inferInstanceAs (Decidable (_ ∧ _))
instance (wrst : R) : Decidable (TurnsCW wrst) := inferInstanceAs (Decidable (_ ∧ _))

def rotateWrist (wrst : R) (s : Vars R) : Vars R :=
  if TurnsCCW wrst then
    { s with
      wristCW := false
      wristCCW := true
      wristOrientation := 2
      wrist := s.wrist - oneToOneSlowIncrementFactor }
  else if TurnsCW wrst then
    { s with
      wristCW := true
      wristCCW := false
      wristOrientation := 1
      wrist := s.wrist + oneToOneSlowIncrementFactor }
  else
    { s with wristCW := false, wristCCW := false, wristOrientation := 0 }

def gripperTarget (h : HandValues R) : R := checkPWMBounds (map h.gv 180 220 2000 1000)

def moveGripper (h : HandValues R) (s : Vars R) : Vars R :=
  if s.gripperOnline then
    { s with gripper := slowIncrementPWM (gripperTarget h) s.pastGripper }
  else s

def moveWrist (h : HandValues R) (s : Vars R) : Vars R :=
  if s.wristOnline then rotateWrist h.rollR s else s

def wristGripper (h : HandValues R) (s : Vars R) : Vars R :=
  let s := moveWrist h (moveGripper h s)
  { s with pastGripper := s.gripper, pastWrist := s.wrist }

def NoHand (h : HandValues R) : Prop :=
  int (some h.yv) = 1 ∧ int (some h.zv) = 51 ∧ int (some h.pv) = -167

instance (h : HandValues R) : Decidable (NoHand h) := inferInstanceAs (Decidable (_ ∧ _ ∧ _))

def restorePast (s : Vars R) : Vars R :=
  { s with
    yArm := s.pastY
    xArm := s.pastX
    wrist := s.pastWrist
    theta1 := s.pastTheta1
    theta2 := s.pastTheta2
    endeY := s.pastEndeY
    endeX := s.pastEndeX
    joint2Y := s.pastJoint2Y
    joint2X := s.pastJoint2X
    gripper := s.pastGripper }

/-- The inverse kinematics, and the past pose where they have no solution. -/
def solve (env : Env R) (s : Vars R) : Vars R :=
  let theta1 := env.solveTheta1 s.xArm s.yArm length1 length2
  let theta2 := env.solveTheta2 s.xArm s.yArm length1 length2
  if theta1.isNone ∨ theta2.isNone then
    { s with
      theta1 := s.pastTheta1
      theta2 := s.pastTheta2
      endeY := s.pastEndeY
      endeX := s.pastEndeX }
  else { s with theta1 := theta1, theta2 := theta2 }

def degrees (env : Env R) (theta : R) : R := theta * (180 / env.PI)

def joint1Position (theta1Deg : R) : R := checkPWMBounds (map theta1Deg (-180) 180 1000 2000)

/-- The bounded position of joint 2, which turns the other way. -/
def joint2Position (theta2Deg : R) : R := checkPWMBounds (map theta2Deg (-180) 180 2000 1000)

/-- The pose's angles in degrees, its display coordinates and the joint positions. -/
def pose (env : Env R) (s : Vars R) : Vars R :=
  let theta1Deg := s.theta1.map (degrees env)
  let theta2Deg := s.theta2.map (degrees env)
  { s with
    joint2Y := int (s.theta1.map (fun t => map (env.sin t) (-1) 1 600 200))
    joint2X := int (s.theta1.map (fun t => map (env.cos t) (-1) 1 500 1000))
    theta1Deg := theta1Deg
    theta2Deg := theta2Deg
    joint1PWM := theta1Deg.map joint1Position
    joint2PWM := theta2Deg.map joint2Position }

def leaveFirstCycle (s : Vars R) : Vars R :=
  if s.firstLoopCycle then
    { s with
      pastJoint1PWM := s.joint1PWM
      pastJoint2PWM := s.joint2PWM
      firstLoopCycle := false }
  else s

def approach (s : Vars R) : Vars R :=
  if s.oneToOneSlow then
    { s with
      joint1PWM := slowIncrement s.joint1PWM s.pastJoint1PWM
      joint2PWM := slowIncrement s.joint2PWM s.pastJoint2PWM }
  else s

def track (env : Env R) (s : Vars R) : Vars R :=
  approach (leaveFirstCycle (pose env (solve env s)))

def mode (env : Env R) (h : HandValues R) (s : Vars R) : Vars R :=
  if s.reset then resetJoints s
  else if s.wristGripperMode then wristGripper h s
  else if NoHand h then restorePast s
  else track env s

/-! ## `draw`: nudges, past copies and the message -/

def nudge (increment decrement : Bool) (PWM : Num R) : Num R :=
  if increment then PWM.map (fun p => p + 1)
  else if decrement then PWM.map (fun p => p + -1)
  else PWM

def nudgeJoints (s : Vars R) : Vars R :=
  { s with
    joint1PWM := nudge s.joint1Increment s.joint1Decrement s.joint1PWM
    joint2PWM := nudge s.joint2Increment s.joint2Decrement s.joint2PWM }

def savePast (s : Vars R) : Vars R :=
  { s with
    pastY := s.yArm
    pastX := s.xArm
    pastWrist := s.wrist
    pastTheta1 := s.theta1
    pastTheta2 := s.theta2
    pastJoint1PWM := s.joint1PWM
    pastJoint2PWM := s.joint2PWM
    pastEndeY := s.endeY
    pastEndeX := s.endeX
    pastJoint2X := s.joint2X
    pastJoint2Y := s.joint2Y }

def message (s : Vars R) : Message where
  joint1PWM := int s.joint1PWM
  joint2PWM := int s.joint2PWM
  wrist := int (some s.wrist)
  wristOrientation := s.wristOrientation
  shoulderOrientation := s.shoulderOrientation
  lazySusanOrientation := s.lazySusanOrientation
  gripper := int (some s.gripper)

def frame (env : Env R) (s : Vars R) (r : Reading R) : Vars R :=
  let h := handValues r
  savePast (nudgeJoints (mode env h (firstCycle env (aim h s))))

def draw (env : Env R) (s : Vars R) (r : Reading R) : Vars R × Message :=
  ({ frame env s r with wristOrientation := 0 }, message (frame env s r))

/-! ## Runs -/

inductive Event (R : Type*) where
  | frame (r : Reading R)
  | press (key : Char)
  | release (key : Char)

def step (env : Env R) (s : Vars R) : Event R → Vars R
  | .frame r => (draw env s r).1
  | .press key => { s with toKeys := keyPressed key s.toKeys }
  | .release key => { s with toKeys := keyReleased key s.toKeys }

def varsAt (env : Env R) (events : ℕ → Event R) (n : ℕ) : Vars R :=
  Run.stateAt (step env) init events n

/-- The message handed to `udp.send` at event `n`, if that is a frame. -/
def sent (env : Env R) (events : ℕ → Event R) (n : ℕ) : Option Message :=
  match events n with
  | .frame r => some (draw env (varsAt env events n) r).2
  | .press _ => none
  | .release _ => none

end Sketch

end TitanRover.Leap
