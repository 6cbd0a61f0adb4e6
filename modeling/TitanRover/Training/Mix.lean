import TitanRover.Stick.Receiver

/-! # `TrainingMix.ino`

The training sketch drives a linear actuator through two relays and an end effector by a servo. Its
handlers and the first part of its `loop` are those of the arm sketches. A pin drives 0 from the
moment it is an output until it is written, and a relay is on while its pin drives 0. -/
namespace TitanRover.Training
open TitanRover.Arduino TitanRover.Stick Foundations Foundations.Run
set_option autoImplicit false

/-! ## The channels -/

inductive Channel where
  | ende | rel
  deriving DecidableEq

def endFlag : BitVec 8 := 1
def relFlag : BitVec 8 := 2

def Channel.flag : Channel → BitVec 8
  | .ende => endFlag
  | .rel => relFlag

def calcRel (high : Bool) (now : BitVec 32) (r : Radio Channel) : Radio Channel :=
  edge Channel.flag .rel high now r

def calcEnd (high : Bool) (now : BitVec 32) (r : Radio Channel) : Radio Channel :=
  edge Channel.flag .ende high now r

def Channel.handler : Channel → Bool → BitVec 32 → Radio Channel → Radio Channel
  | .ende => calcEnd
  | .rel => calcRel

/-! ## The relay pins -/

/-- `RELAY1_OUT_PIN` and `RELAY2_OUT_PIN`. -/
inductive Relay where
  | relay1 | relay2
  deriving DecidableEq

structure Pin where
  output : Bool
  level : Bool
  deriving DecidableEq

abbrev Pins := Relay → Pin

def resetPins : Pins := fun _ => { output := false, level := false }

def pinMode (pins : Pins) (r : Relay) : Pins :=
  Function.update pins r { pins r with output := true }

def digitalWrite (pins : Pins) (w : Relay × Bool) : Pins :=
  Function.update pins w.1 { pins w.1 with level := w.2 }

/-- The relay of a pin that drives 0 is energised. -/
def On (pins : Pins) (r : Relay) : Prop := (pins r).output = true ∧ (pins r).level = false

instance (pins : Pins) (r : Relay) : Decidable (On pins r) := inferInstanceAs (Decidable (_ ∧ _))

def BothOn (pins : Pins) : Prop := On pins .relay1 ∧ On pins .relay2

instance (pins : Pins) : Decidable (BothOn pins) := inferInstanceAs (Decidable (_ ∧ _))

/-! ## The sketch -/

/-- `servoEnd` is what `readMicroseconds` returns: the value last written. -/
structure Vars extends Statics Channel where
  pins : Pins
  servoEnd : BitVec 16

def defaultPulseWidth : BitVec 16 := 1500

def setup : Vars where
  toStatics := Statics.init
  pins := pinMode (pinMode resetPins .relay1) .relay2
  servoEnd := defaultPulseWidth

def received (s : Vars) (sh : Shared Channel) : Vars :=
  { s with toStatics := readShared Channel.flag s.toStatics sh }

/-- Each branch turns a relay off before it turns the other one on. -/
def relayWrites (usRelIn : BitVec 16) : List (Relay × Bool) :=
  if usRelIn < 1100 then [(.relay2, true), (.relay1, false)]
  else if usRelIn > 1900 then [(.relay1, true), (.relay2, false)]
  else [(.relay1, true), (.relay2, true)]

def writes (s : Vars) : List (Relay × Bool) :=
  if s.bUpdateFlags &&& relFlag ≠ 0 then relayWrites (s.input .rel) else []

def relays (s : Vars) : Vars := { s with pins := (writes s).foldl digitalWrite s.pins }

/-- The clamp and the map to the range that the fingers allow. -/
def endCommand (usEndIn : BitVec 16) : BitVec 16 :=
  BitVec.ofInt 16 (Arduino.map (scrubWidth usEndIn).toNat 1000 2000 1220 1480)

def endEffector (s : Vars) : Vars :=
  if s.bUpdateFlags &&& endFlag ≠ 0 then
    if s.servoEnd ≠ s.input .ende then
      { s with
        input := Function.update s.input .ende (endCommand (s.input .ende))
        servoEnd := endCommand (s.input .ende) }
    else s
  else s

def loop (s : Vars) (sh : Shared Channel) : Vars :=
  { endEffector (relays (received s sh)) with bUpdateFlags := 0 }

def varsAt (inp : ℕ → Shared Channel) : ℕ → Vars := stateAt loop setup inp

theorem interrupted_run (events : List (Option (Interrupt Channel))) :
    ∃ inp n, (events.foldl (Snapshot.act (system Channel.handler loop)) (Radio.init, setup)).2 =
      varsAt inp n :=
  interleaving_refines Channel.handler loop setup events

end TitanRover.Training
