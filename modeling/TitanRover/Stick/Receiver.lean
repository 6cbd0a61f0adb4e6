import TitanRover.Arduino.Core
import TitanRover.Foundations.Snapshot

/-! # The receiver of the stick-driven arm sketches

What `Updated 2DOF`, `InverseKinematicsRoboticArm.ino`, `sketch_nov24b.ino`, `Titan16_3DOF.ino` and
the drive program `Titan16_Drive.ino` have in common: the pin change handlers that publish the width
of a pulse with its flag, and the first part of `loop`, which reads the flagged widths
(`readShared`) and scrubs them (`scrub`). The channels, their flags and the mask of the scrub's test
are the sketch's own. `Titan16_Arm.ino` and `TrainingMix.ino` share the handlers. -/
namespace TitanRover.Stick
open TitanRover.Arduino Foundations Foundations.Run
set_option autoImplicit false

section Channels
variable {C : Type}

/-- The variables the handlers share with the loop: `bUpdateFlagsShared`, and `XINPUTSHARED`,
`YINPUTSHARED` and the like. -/
structure Shared (C : Type) where
  bUpdateFlagsShared : BitVec 8
  inputShared : C → BitVec 16

/-- What the handlers write: the shared variables and `XSTART`, `YSTART` and the like. -/
structure Radio (C : Type) where
  shared : Shared C
  start : C → BitVec 32

/-- The loop's copies of the shared variables: `bUpdateFlags`, and `XCOORDIN`, `YCOORDIN` and the
like. -/
structure Statics (C : Type) where
  bUpdateFlags : BitVec 8
  input : C → BitVec 16

def Statics.init : Statics C where
  bUpdateFlags := 0
  input := fun _ => 0

/-! ## The handlers -/

def Radio.init : Radio C where
  shared := { bUpdateFlagsShared := 0, inputShared := fun _ => 0 }
  start := fun _ => 0

def clearShared (r : Radio C) : Radio C :=
  { r with shared := { r.shared with bUpdateFlagsShared := 0 } }

variable (flag : C → BitVec 8)

/-- One handler: a rising edge stores the time, a falling edge publishes the width and its flag. -/
def edge [DecidableEq C] (c : C) (high : Bool) (now : BitVec 32) (r : Radio C) : Radio C :=
  if high then { r with start := Function.update r.start c now }
  else
    { r with shared :=
      { bUpdateFlagsShared := r.shared.bUpdateFlagsShared ||| flag c
        inputShared := Function.update r.shared.inputShared c ((now - r.start c).setWidth 16) } }

/-- The two edges of a pulse publish its width, also where `micros` wraps around between them. -/
theorem edge_pulse [DecidableEq C] (c : C) (now width : BitVec 32) (r : Radio C) :
    (edge flag c false (now + width) (edge flag c true now r)).shared =
      { bUpdateFlagsShared := r.shared.bUpdateFlagsShared ||| flag c
        inputShared := Function.update r.shared.inputShared c (width.setWidth 16) } := by
  have hwidth : now + width - now = width := by
    rw [BitVec.add_comm, BitVec.add_sub_cancel]
  simp [edge, hwidth]

/-! ## The first part of the loop -/

def readShared (p : Statics C) (sh : Shared C) : Statics C :=
  if sh.bUpdateFlagsShared ≠ 0 then
    { bUpdateFlags := sh.bUpdateFlagsShared
      input := fun c =>
        if sh.bUpdateFlagsShared &&& flag c ≠ 0 then sh.inputShared c else p.input c }
  else p

def scrubWidth (w : BitVec 16) : BitVec 16 :=
  if w < 1000 then 1000 else if w > 2000 then 2000 else w

def scrub (mask : BitVec 8) (p : Statics C) : Statics C :=
  if p.bUpdateFlags &&& mask ≠ 0 then { p with input := fun c => scrubWidth (p.input c) } else p

def receive (mask : BitVec 8) (p : Statics C) (sh : Shared C) : Statics C :=
  scrub mask (readShared flag p sh)

/-! ## What an iteration finds -/

/-- The iteration consumes a pulse of channel `c`. -/
def Consumes (c : C) (sh : Shared C) : Prop := sh.bUpdateFlagsShared &&& flag c ≠ 0

instance (c : C) (sh : Shared C) : Decidable (Consumes flag c sh) :=
  inferInstanceAs (Decidable (_ ≠ _))

/-- The width in effect on channel `c` before the scrub: the one just consumed, or else the one
kept from before. -/
def inEffect (p : Statics C) (sh : Shared C) (c : C) : BitVec 16 :=
  if Consumes flag c sh then sh.inputShared c else p.input c

theorem scrubWidth_toNat (w : BitVec 16) : (scrubWidth w).toNat = max 1000 (min w.toNat 2000) :=
  constrain_toNat w 1000 2000 (by decide)

/-- A width that the receiver is specified to send. -/
def WidthInRange (w : BitVec 16) : Prop := 1000 ≤ w.toNat ∧ w.toNat ≤ 2000

theorem scrubWidth_range (w : BitVec 16) : WidthInRange (scrubWidth w) := by
  rw [WidthInRange, scrubWidth_toNat]
  omega

/-- The flags in effect: the shared ones, or else those that no iteration has cleared. -/
def flagsInEffect (p : Statics C) (sh : Shared C) : BitVec 8 :=
  if sh.bUpdateFlagsShared ≠ 0 then sh.bUpdateFlagsShared else p.bUpdateFlags

theorem flagsInEffect_of_consumes {p : Statics C} {sh : Shared C} {c : C}
    (h : Consumes flag c sh) : flagsInEffect p sh = sh.bUpdateFlagsShared := by
  apply if_pos
  intro h0
  exact h (by simp [h0])

/-- After an iteration that cleared its flags only the shared ones are in effect. -/
theorem flagsInEffect_of_cleared {p : Statics C} (h0 : p.bUpdateFlags = 0) (sh : Shared C) :
    flagsInEffect p sh = sh.bUpdateFlagsShared := by
  rw [flagsInEffect, h0]
  split_ifs with hsh
  · rfl
  · exact (not_not.mp hsh).symm

theorem readShared_eq (p : Statics C) (sh : Shared C) :
    readShared flag p sh =
      { bUpdateFlags := flagsInEffect p sh, input := inEffect flag p sh } := by
  unfold readShared flagsInEffect
  by_cases hsh : sh.bUpdateFlagsShared = 0
  · have hkept : inEffect flag p sh = p.input := by
      funext c
      simp [inEffect, Consumes, hsh]
    rw [if_neg (not_not.mpr hsh), if_neg (not_not.mpr hsh), hkept]
  · rw [if_pos hsh, if_pos hsh]
    rfl

theorem receive_eq (mask : BitVec 8) (p : Statics C) (sh : Shared C) (c : C) :
    (receive flag mask p sh).input c =
      if flagsInEffect p sh &&& mask ≠ 0 then scrubWidth (inEffect flag p sh c)
      else inEffect flag p sh c := by
  rw [receive, readShared_eq, scrub]
  split_ifs <;> rfl

theorem receive_input {p : Statics C} (h0 : p.bUpdateFlags = 0) (mask : BitVec 8) (sh : Shared C)
    (c : C) : (receive flag mask p sh).input c =
      if sh.bUpdateFlagsShared &&& mask ≠ 0 then scrubWidth (inEffect flag p sh c)
      else inEffect flag p sh c := by
  rw [receive_eq, flagsInEffect_of_cleared h0]

/-! ## A sketch among its interrupts -/

/-- An interrupt finds the level of its channel and the time. -/
structure Interrupt (C : Type) where
  channel : C
  high : Bool
  now : BitVec 32

section Interrupted
variable {S : Type*} (handler : C → Bool → BitVec 32 → Radio C → Radio C)
  (loop : S → Shared C → S)

def system : Snapshot.System (Radio C) S (Interrupt C) where
  handle := fun r i => handler i.channel i.high i.now r
  clear := clearShared
  loop := fun s r => loop s r.shared

/-- Whatever the interleaving of interrupts and iterations, the state of the loop is that of a run
on what its iterations found. -/
theorem interleaving_refines (s : S) (events : List (Option (Interrupt C))) :
    ∃ inp n, (events.foldl (Snapshot.act (system handler loop)) (Radio.init, s)).2 =
      stateAt loop s inp n := by
  obtain ⟨found, n, hrun⟩ :=
    Snapshot.interleaving_is_run (system handler loop) Radio.init s events
  refine ⟨fun k => (found k).shared, n, hrun.trans ?_⟩
  exact stateAt_map (system handler loop).loop s found id Radio.shared (fun _ _ => rfl) n

end Interrupted

end Channels

/-! ## The two axes -/

inductive Axis where
  | x | y
  deriving DecidableEq

def xCoordFlag : BitVec 8 := 1
def yCoordFlag : BitVec 8 := 2

def Axis.flag : Axis → BitVec 8
  | .x => xCoordFlag
  | .y => yCoordFlag

def calcXLocation (high : Bool) (now : BitVec 32) (r : Radio Axis) : Radio Axis :=
  edge Axis.flag .x high now r

def calcYLocation (high : Bool) (now : BitVec 32) (r : Radio Axis) : Radio Axis :=
  edge Axis.flag .y high now r

def Axis.handler : Axis → Bool → BitVec 32 → Radio Axis → Radio Axis
  | .x => calcXLocation
  | .y => calcYLocation

/-! ## The servos -/

inductive Servo where
  | armJoint1 | armJoint2 | endeJoint
  deriving DecidableEq

abbrev Write := Servo × BitVec 16

def applyWrites (servos : Servo → BitVec 16) (ws : List Write) : Servo → BitVec 16 :=
  ws.foldl (fun s w => Function.update s w.1 w.2) servos

/-- `writeMicroseconds` of an `int`, converted to `uint16_t` by the `setSpeed` function. -/
def setSpeed (servo : Servo) (val : ℤ) : List Write := [(servo, BitVec.ofInt 16 val)]

/-- Joint 2 is mounted backwards: its command is mirrored about the neutral one. -/
def mirror (usAJNT2 : ℤ) : ℤ :=
  if usAJNT2 = 1500 then usAJNT2
  else if usAJNT2 > 1500 then 1500 - (usAJNT2 - 1500)
  else 1500 + (1500 - usAJNT2)

/-- Angles are commanded within these bounds. -/
def InBounds (deg : ℤ) : Prop := deg ≥ -170 ∧ deg ≤ 170

instance (deg : ℤ) : Decidable (InBounds deg) := inferInstanceAs (Decidable (_ ∧ _))

def centerSignal : BitVec 16 := 1500
def endeSignal : BitVec 16 := 1615

end TitanRover.Stick
