import Mathlib.Algebra.Order.Floor.Ring
import Mathlib.Algebra.Order.Floor.Semiring
import Mathlib.Algebra.Order.Ring.Cast

/-! # Conversion of a number to an integer by truncation -/
namespace Foundations
set_option autoImplicit false

section Truncation
variable {R : Type*} [Ring R] [LinearOrder R] [FloorRing R]

/-- Truncation towards zero. -/
def trunc (r : R) : ℤ := if 0 ≤ r then ⌊r⌋ else ⌈r⌉

theorem trunc_of_nonneg {r : R} (h : 0 ≤ r) : trunc r = ⌊r⌋ := if_pos h

theorem trunc_nonpos {r : R} (h : r < 0) : trunc r ≤ 0 := by
  rw [trunc, if_neg (not_le.mpr h)]
  exact Int.ceil_le.mpr (by simpa using h.le)

variable [IsStrictOrderedRing R]

theorem le_trunc_iff {a : ℤ} (ha : 0 < a) (r : R) : a ≤ trunc r ↔ (a : R) ≤ r := by
  by_cases hr : 0 ≤ r
  · rw [trunc_of_nonneg hr, Int.le_floor]
  · have hneg := not_le.mp hr
    have hlow := trunc_nonpos hneg
    have hcast : (0 : R) < a := by exact_mod_cast ha
    constructor
    · intro h
      omega
    · intro h
      exact absurd (lt_of_lt_of_le hcast h) (not_lt.mpr hneg.le)

theorem trunc_le_iff {b : ℤ} (hb : 0 ≤ b) (r : R) : trunc r ≤ b ↔ r < b + 1 := by
  by_cases hr : 0 ≤ r
  · rw [trunc_of_nonneg hr, ← Int.lt_add_one_iff, Int.floor_lt]
    push_cast
    rfl
  · have hneg := not_le.mp hr
    have hlow := trunc_nonpos hneg
    have hcast : (0 : R) ≤ b := by exact_mod_cast hb
    have hlt : r < b + 1 := lt_of_lt_of_le hneg (add_nonneg hcast zero_le_one)
    exact ⟨fun _ => hlt, fun _ => by omega⟩

theorem trunc_intCast (z : ℤ) : trunc (z : R) = z := by
  by_cases h : (0 : R) ≤ z
  · rw [trunc_of_nonneg h, Int.floor_intCast]
  · rw [trunc, if_neg h, Int.ceil_intCast]

theorem trunc_le_add {x y : R} {d : ℤ} (hd : 0 ≤ d) (h : y ≤ x + d) : trunc y ≤ trunc x + d := by
  by_cases hx : 0 ≤ x
  · rw [trunc_of_nonneg hx]
    have hfloor := Int.floor_nonneg.mpr hx
    rw [trunc_le_iff (by omega)]
    calc y ≤ x + d := h
      _ < ⌊x⌋ + 1 + d := add_lt_add_left (Int.lt_floor_add_one x) _
      _ = ((⌊x⌋ + d : ℤ) : R) + 1 := by
        push_cast
        exact add_right_comm _ _ _
  · have hceil : trunc x = ⌈x⌉ := if_neg hx
    have hy : y ≤ ((⌈x⌉ + d : ℤ) : R) := by
      push_cast
      exact h.trans (add_le_add_left (Int.le_ceil x) _)
    rw [hceil, trunc]
    split_ifs
    · have hfloor := Int.floor_mono hy
      rwa [Int.floor_intCast] at hfloor
    · exact Int.ceil_le.mpr hy

/-- Truncation moves a number by no more than a whole bound on its move. -/
theorem abs_trunc_sub_le {x y : R} {d : ℤ} (h : |y - x| ≤ d) : |trunc y - trunc x| ≤ d := by
  obtain ⟨hlow, hhigh⟩ := abs_sub_le_iff.mp h
  have hd : (0 : R) ≤ d := (abs_nonneg _).trans h
  rw [Int.cast_nonneg_iff] at hd
  have hup := trunc_le_add hd (sub_le_iff_le_add'.mp hlow)
  have hdown := trunc_le_add hd (sub_le_iff_le_add'.mp hhigh)
  rw [abs_sub_le_iff]
  omega

theorem abs_trunc_sub_self_lt (r : R) : |(trunc r : R) - r| < 1 := by
  rw [trunc, abs_lt]
  split_ifs
  · exact ⟨neg_lt_sub_iff_lt_add'.mpr (Int.lt_floor_add_one r),
      (sub_nonpos.mpr (Int.floor_le r)).trans_lt zero_lt_one⟩
  · exact ⟨(neg_neg_of_pos zero_lt_one).trans_le (sub_nonneg.mpr (Int.le_ceil r)),
      sub_lt_iff_lt_add'.mpr (Int.ceil_lt_add_one r)⟩

end Truncation

end Foundations
