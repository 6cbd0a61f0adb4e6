import Mathlib.Tactic.SplitIfs
import TitanRover.PinChange.Port

/-! # The board the sketches are wired to

The pins of an ATmega328: D0 to D7 on port D, D8 to D13 on port B, A0 to A5 on port C. -/
namespace TitanRover.PinChange
set_option autoImplicit false

inductive UnoPort where
  | B | C | D
  deriving DecidableEq

def unoPort (pin : Pin) : Option UnoPort :=
  if pin.toNat < 8 then some .D
  else if pin.toNat < 14 then some .B
  else if pin.toNat < 20 then some .C
  else none

def unoPlace (pin : Pin) : ℕ :=
  if pin.toNat < 8 then pin.toNat
  else if pin.toNat < 14 then pin.toNat - 8
  else if pin.toNat < 20 then pin.toNat - 14
  else 0

def unoIndex : UnoPort → ℕ
  | .B => 0
  | .C => 1
  | .D => 2

def uno : Board UnoPort where
  digitalPinToPort := unoPort
  place := unoPlace
  pcindex := unoIndex
  usesPortJ := false
  place_lt := by
    intro pin
    unfold unoPlace
    split_ifs <;> omega
  pcindex_lt := by
    intro q
    cases q <;> decide
  place_injective := by
    intro pin pin' q hpin hpin' hplace
    apply BitVec.eq_of_toNat_eq
    unfold unoPort at hpin hpin'
    unfold unoPlace at hplace
    cases q <;> split_ifs at hpin hpin' hplace <;> simp at hpin hpin' <;> omega
  pcindex_injective := by
    intro q q' h
    cases q <;> cases q' <;> first | rfl | cases h

/-- All lines low. -/
def unoLow : UnoPort → Reg := fun _ => 0

end TitanRover.PinChange
