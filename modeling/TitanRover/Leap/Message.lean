import TitanRover.Foundations.Decimal

/-! # The command message

The string that `draw` of `leap_motion_udp.pde` builds and sends: seven decimal numbers, each followed
by a slash. -/
namespace TitanRover.Leap
open Foundations
set_option autoImplicit false

@[ext] structure Message where
  joint1PWM : ℤ
  joint2PWM : ℤ
  wrist : ℤ
  wristOrientation : ℤ
  shoulderOrientation : ℤ
  lazySusanOrientation : ℤ
  gripper : ℤ
  deriving DecidableEq

def str (z : ℤ) : List Decimal.Byte := Decimal.integer z

def separator : List Decimal.Byte := [47]

def Message.text (m : Message) : List Decimal.Byte :=
  str m.joint1PWM ++ separator ++ str m.joint2PWM ++ separator ++ str m.wrist ++ separator ++
    str m.wristOrientation ++ separator ++ str m.shoulderOrientation ++ separator ++
    str m.lazySusanOrientation ++ separator ++ str m.gripper ++ separator

end TitanRover.Leap
