import Mathlib.Data.Rat.Floor
import TitanRover.Foundations.Truncation

/-! # The Arduino functions the sketches call

The target is an AVR board: `int` and `uint16_t` have 16 bits, `long` and `micros()` 32. A `float`
is read as an exact rational, and its conversion to an integer type truncates. -/
namespace TitanRover.Arduino
open Foundations
set_option autoImplicit false

/-- `constrain(amt, low, high)` on `uint16_t` arguments. -/
def constrain (amt low high : BitVec 16) : BitVec 16 :=
  if amt < low then low else if amt > high then high else amt

/-- `map` in `long` arithmetic, whose division truncates. No call in the sketches comes near the
range of a `long`. -/
def map (x inMin inMax outMin outMax : ℤ) : ℤ :=
  ((x - inMin) * (outMax - outMin)).tdiv (inMax - inMin) + outMin

def toUint16 (q : ℚ) : BitVec 16 := BitVec.ofInt 16 (trunc q)

/-- `a || b` on constants of type `int`. -/
def logicalOr (a b : BitVec 8) : BitVec 8 := if a ≠ 0 ∨ b ≠ 0 then 1 else 0

theorem constrain_toNat (amt low high : BitVec 16) (h : low ≤ high) :
    (constrain amt low high).toNat = max low.toNat (min amt.toNat high.toNat) := by
  simp only [constrain, BitVec.lt_def, BitVec.le_def, gt_iff_lt] at h ⊢
  split_ifs <;> omega

/-- A width in range is mapped into the range of the outputs. -/
theorem map_pwm_range {n : ℕ} (h : 1000 ≤ n ∧ n ≤ 2000) (a b : ℤ) (hab : a ≤ b) :
    a ≤ map n 1000 2000 a b ∧ map n 1000 2000 a b ≤ b := by
  have hn : (0 : ℤ) ≤ (n - 1000) * (b - a) := Int.mul_nonneg (by omega) (by omega)
  have hle : ((n : ℤ) - 1000) * (b - a) ≤ 1000 * (b - a) :=
    Int.mul_le_mul_of_nonneg_right (by omega) (by omega)
  simp only [map, Int.tdiv_eq_ediv_of_nonneg hn]
  omega

theorem ofInt_range {z : ℤ} {a b : ℕ} (h : a ≤ z ∧ z ≤ b) (hlt : b < 2 ^ 16) :
    a ≤ (BitVec.ofInt 16 z).toNat ∧ (BitVec.ofInt 16 z).toNat ≤ b := by
  rw [BitVec.toNat_ofInt]
  omega

theorem toUint16_toNat {q : ℚ} (h0 : 0 ≤ q) (h : q < 2 ^ 16) : ((toUint16 q).toNat : ℤ) = ⌊q⌋ := by
  have hlow : 0 ≤ ⌊q⌋ := Int.floor_nonneg.mpr h0
  have hhigh : ⌊q⌋ < 2 ^ 16 := Int.floor_lt.mpr (by exact_mod_cast h)
  rw [toUint16, trunc_of_nonneg h0, BitVec.toNat_ofInt, Int.emod_eq_of_lt (by omega) (by omega)]
  omega

theorem toUint16_range {q : ℚ} {a b : ℕ} (ha : (a : ℚ) ≤ q) (hb : q ≤ b) (hlt : b < 2 ^ 16) :
    a ≤ (toUint16 q).toNat ∧ (toUint16 q).toNat ≤ b := by
  have hfits : q < 2 ^ 16 := lt_of_le_of_lt hb (by exact_mod_cast hlt)
  have hval := toUint16_toNat (le_trans (Nat.cast_nonneg a) ha) hfits
  have hlow : (a : ℤ) ≤ ⌊q⌋ := Int.le_floor.mpr (by exact_mod_cast ha)
  have hhigh : ⌊q⌋ ≤ (b : ℤ) := by
    have h := (Int.floor_le q).trans hb
    exact_mod_cast h
  omega

end TitanRover.Arduino
