import Mathlib.Data.Int.Notation
import Mathlib.Logic.Function.Basic
import TitanRover.Foundations.Bits

/-! # The pin change interrupt library

The model of `PinChangeInt.h`. A port's `PCintPort` object keeps the pins attached to it in a linked
list, and in two registers which of them answer a rising and a falling edge. `attachInterrupt` and
`detachInterrupt` change these, and a round of `PCint`, the body of the port's interrupt routine,
compares the port's levels with the ones it saw last and calls the functions of the pins that
changed. A function of the sketch is called and not run: what it does to the sketch is the sketch's
model. -/
namespace TitanRover.PinChange
set_option autoImplicit false

abbrev Pin := BitVec 8

abbrev Reg := BitVec 8

/-! ## The board -/

/-- What the library takes from the board it is compiled for: the port of a pin, which is `none` for
`NOT_A_PORT`, the place of the pin in its port's registers, the place of the port in `PCICR` and
`PCIFR`, and whether there is a port J. Every port has a `PCintPort` object. -/
structure Board (P : Type) where
  digitalPinToPort : Pin → Option P
  place : Pin → ℕ
  pcindex : P → ℕ
  usesPortJ : Bool
  place_lt : ∀ pin, place pin < 8
  pcindex_lt : ∀ q, pcindex q < 8
  place_injective : ∀ {pin pin' : Pin} {q : P}, digitalPinToPort pin = some q →
    digitalPinToPort pin' = some q → place pin = place pin' → pin = pin'
  pcindex_injective : ∀ {q q' : P}, pcindex q = pcindex q' → q = q'

section Ports
variable {P H : Type} (b : Board P)

def Board.digitalPinToBitMask (pin : Pin) : Reg := BitVec.twoPow 8 (b.place pin)

def Board.PCICRbit (q : P) : Reg := BitVec.twoPow 8 (b.pcindex q)

/-- The bit of a pin in its port's `PCMSK` register, which is moved up by one on port J. -/
def Board.pcMask (arduinoPin : Pin) (mask : Reg) : Reg :=
  if b.usesPortJ ∧ (arduinoPin = 14 ∨ arduinoPin = 15) then mask <<< 1 else mask

def change : BitVec 8 := 1
def falling : BitVec 8 := 2
def rising : BitVec 8 := 3

/-! ## Masks of the pins of one port -/

theorem clear_mask {q : P} {pin pin' : Pin} (hpin : b.digitalPinToPort pin = some q)
    (hpin' : b.digitalPinToPort pin' = some q) (x : Reg) :
    (x &&& ~~~b.digitalPinToBitMask pin').getLsbD (b.place pin) =
      (x.getLsbD (b.place pin) && !decide (pin' = pin)) := by
  rw [Board.digitalPinToBitMask, Foundations.Bits.clear_bit (b.place_lt pin)]
  congr 2
  rw [decide_eq_decide]
  exact ⟨fun he => b.place_injective hpin' hpin he, fun he => by rw [he]⟩

theorem set_mask {q : P} {pin pin' : Pin} (hpin : b.digitalPinToPort pin = some q)
    (hpin' : b.digitalPinToPort pin' = some q) (x : Reg) :
    (x ||| b.digitalPinToBitMask pin').getLsbD (b.place pin) =
      (x.getLsbD (b.place pin) || decide (pin' = pin)) := by
  rw [Board.digitalPinToBitMask, Foundations.Bits.set_bit (b.place_lt pin')]
  congr 1
  rw [decide_eq_decide]
  exact ⟨fun he => b.place_injective hpin' hpin he, fun he => by rw [he]⟩

/-! ## The objects -/

structure PCintPin (H : Type) where
  PCintFunc : H
  mode : BitVec 8
  mask : Reg
  arduinoPin : Pin

structure PCintPort (H : Type) where
  portPCMask : Reg
  portRisingPins : Reg
  portFallingPins : Reg
  lastPinView : Reg
  firstPin : List (PCintPin H)

/-- The library's objects, and the register that enables the interrupts of the ports. -/
structure Lib (P H : Type) where
  PCICR : Reg
  port : P → PCintPort H

def PCintPort.init : PCintPort H where
  portPCMask := 0
  portRisingPins := 0
  portFallingPins := 0
  lastPinView := 0
  firstPin := []

def Lib.init : Lib P H where
  PCICR := 0
  port := fun _ => .init

variable [DecidableEq P]

def Lib.setPort (q : P) (port : PCintPort H) (s : Lib P H) : Lib P H :=
  { s with port := Function.update s.port q port }

/-! ## `attachInterrupt` -/

/-- `enable`, after it has stored the mode and the function in the pin's entry `p`. -/
def enable (q : P) (p : PCintPin H) (s : Lib P H) : Lib P H :=
  { s.setPort q
      { s.port q with
        portPCMask := (s.port q).portPCMask ||| b.pcMask p.arduinoPin p.mask
        portRisingPins :=
          if p.mode = rising ∨ p.mode = change then (s.port q).portRisingPins ||| p.mask
          else (s.port q).portRisingPins
        portFallingPins :=
          if p.mode = falling ∨ p.mode = change then (s.port q).portFallingPins ||| p.mask
          else (s.port q).portFallingPins } with
    PCICR := s.PCICR ||| b.PCICRbit q }

/-- The list with the mode and the function stored in the first entry of the pin. -/
def reenable (arduinoPin : Pin) (userFunc : H) (mode : BitVec 8) :
    List (PCintPin H) → List (PCintPin H)
  | [] => []
  | p :: ps =>
    if p.arduinoPin = arduinoPin then { p with mode := mode, PCintFunc := userFunc } :: ps
    else p :: reenable arduinoPin userFunc mode ps

def Lib.setPins (q : P) (ps : List (PCintPin H)) (s : Lib P H) : Lib P H :=
  s.setPort q { s.port q with firstPin := ps }

def newPin (arduinoPin : Pin) (userFunc : H) (mode : BitVec 8) : PCintPin H where
  PCintFunc := userFunc
  mode := mode
  mask := b.digitalPinToBitMask arduinoPin
  arduinoPin := arduinoPin

/-- `new` says whether `new PCintPin` finds memory. -/
def addPin (q : P) (arduinoPin : Pin) (userFunc : H) (mode : BitVec 8) (new : Bool)
    (s : Lib P H) : Lib P H × ℤ :=
  match (s.port q).firstPin.find? (fun p => p.arduinoPin = arduinoPin) with
  | some p =>
    (enable b q { p with mode := mode, PCintFunc := userFunc }
      (s.setPins q (reenable arduinoPin userFunc mode (s.port q).firstPin)), 0)
  | none =>
    if new then
      (enable b q (newPin b arduinoPin userFunc mode)
        (s.setPins q ((s.port q).firstPin ++ [newPin b arduinoPin userFunc mode])), 1)
    else (s, -1)

/-- `port->lastPinView = port->portInputReg`. -/
def Lib.view (q : P) (input : Reg) (s : Lib P H) : Lib P H :=
  s.setPort q { s.port q with lastPinView := input }

/-- `input` are the input registers of the ports; a `userFunc` of `none` is `NULL`. -/
def attachInterrupt (arduinoPin : Pin) (userFunc : Option H) (mode : BitVec 16) (new : Bool)
    (input : P → Reg) (s : Lib P H) : Lib P H × ℤ :=
  match b.digitalPinToPort arduinoPin, userFunc with
  | some q, some f => addPin b q arduinoPin f (mode.setWidth 8) new (s.view q (input q))
  | _, _ => (s, -1)

/-! ## `detachInterrupt` -/

/-- The part of `detachInterrupt` that runs with interrupts disabled. -/
def disable (q : P) (arduinoPin : Pin) (current : PCintPin H) (s : Lib P H) : Lib P H :=
  let portPCMask := (s.port q).portPCMask &&&
    ~~~b.pcMask arduinoPin (b.digitalPinToBitMask arduinoPin)
  { s.setPort q
      { s.port q with
        portPCMask := portPCMask
        portRisingPins := (s.port q).portRisingPins &&& ~~~current.mask
        portFallingPins := (s.port q).portFallingPins &&& ~~~current.mask } with
    PCICR := if portPCMask = 0 then s.PCICR &&& ~~~b.PCICRbit q else s.PCICR }

def detachInterrupt (arduinoPin : Pin) (s : Lib P H) : Lib P H :=
  match b.digitalPinToPort arduinoPin with
  | none => s
  | some q =>
    match (s.port q).firstPin.find? (fun p => p.mask = b.digitalPinToBitMask arduinoPin) with
    | none => s
    | some current => disable b q arduinoPin current s

/-! ## `PCint` -/

structure Call (H : Type) where
  PCintFunc : H
  arduinoPin : Pin
  pinState : Bool
  deriving DecidableEq

def changedPins (port : PCintPort H) (curr : Reg) : Reg :=
  (curr ^^^ port.lastPinView) &&&
    ((port.portRisingPins &&& curr) ||| (port.portFallingPins &&& ~~~curr))

def PCintPin.call (p : PCintPin H) (curr : Reg) : Call H where
  PCintFunc := p.PCintFunc
  arduinoPin := p.arduinoPin
  pinState := decide (curr &&& p.mask ≠ 0)

/-- The walk along the pins of the port. -/
def walk (changed curr : Reg) : List (PCintPin H) → List (Call H)
  | [] => []
  | p :: ps =>
    if p.mask &&& changed ≠ 0 then p.call curr :: walk changed curr ps
    else walk changed curr ps

/-- One round of the loop in `PCint`, on the levels `curr`. -/
def round (q : P) (curr : Reg) (s : Lib P H) : Lib P H × List (Call H) :=
  (s.view q curr, walk (changedPins (s.port q) curr) curr (s.port q).firstPin)

end Ports

end TitanRover.PinChange
