import Mathlib

/-! # Differential mixing

A stick position in the square `[-b, b]²` is mixed into the shares of the two sides of a vehicle:
`share b x y` for the side that `x` turns up, `share b (-x) y` for the other. Where the two
coordinates agree in sign they add up to the sum short of its excess over `b`, and where they
disagree they cancel. A share stays within `b` and grows with both coordinates, and on whole
coordinates no share lies between 0 and 1. -/
namespace Foundations.Mix
set_option autoImplicit false

section Shares
variable {R : Type*} [Field R] [LinearOrder R]

/-- Two deflections added up, so that the sum is at most `b` when both are. -/
def joint (b x y : R) : R := |x| + |y| - |x| * |y| / b

def share (b x y : R) : R := if x * y ≤ 0 then y + x else SignType.sign y * joint b x y

theorem share_zero (b : R) : share b 0 0 = 0 := by simp [share]

theorem share_cancel {b x y : R} (h : x * y ≤ 0) : share b x y = y + x := if_pos h

theorem joint_eq {b : R} (hb : b ≠ 0) (x y : R) :
    joint b x y = b - (b - |x|) * (b - |y|) / b := by
  rw [joint]
  field_simp
  ring

variable [IsStrictOrderedRing R] {b x y : R}

theorem share_add_up (hx : 0 < x) (hy : 0 < y) : share b x y = joint b x y := by
  rw [share, if_neg (not_le.mpr (mul_pos hx hy)), sign_pos hy, SignType.coe_one, one_mul]

theorem share_add_down (hx : x < 0) (hy : y < 0) : share b x y = -joint b x y := by
  rw [share, if_neg (not_le.mpr (mul_pos_of_neg_of_neg hx hy)), sign_neg hy,
    SignType.coe_neg_one, neg_one_mul]

theorem share_cases (b x y : R) :
    (x * y ≤ 0 ∧ share b x y = y + x) ∨ (0 < x ∧ 0 < y ∧ share b x y = joint b x y) ∨
      (x < 0 ∧ y < 0 ∧ share b x y = -joint b x y) := by
  by_cases h : x * y ≤ 0
  · exact Or.inl ⟨h, share_cancel h⟩
  · rw [not_le, mul_pos_iff] at h
    rcases h with ⟨hx, hy⟩ | ⟨hx, hy⟩
    · exact Or.inr (Or.inl ⟨hx, hy, share_add_up hx hy⟩)
    · exact Or.inr (Or.inr ⟨hx, hy, share_add_down hx hy⟩)

/-- The product form that is computed without a case split. -/
theorem share_eq (hb : 0 < b) (x y : R) :
    share b x y = ((b - |x|) * (y / b) + y + ((b - |y|) * (x / b) + x)) / 2 := by
  have hne : b ≠ 0 := hb.ne'
  rw [eq_div_iff (two_ne_zero' R)]
  rcases share_cases b x y with ⟨h, hs⟩ | ⟨hx, hy, hs⟩ | ⟨hx, hy, hs⟩
  · have hcancel : |x| * y + |y| * x = 0 := by
      rcases mul_nonpos_iff.mp h with ⟨hx, hy⟩ | ⟨hx, hy⟩
      · rw [abs_of_nonneg hx, abs_of_nonpos hy]
        ring
      · rw [abs_of_nonpos hx, abs_of_nonneg hy]
        ring
    rw [hs]
    field_simp
    linear_combination hcancel
  · rw [hs, joint, abs_of_pos hx, abs_of_pos hy]
    field_simp
    ring
  · rw [hs, joint, abs_of_neg hx, abs_of_neg hy]
    field_simp
    ring

theorem share_comm (hb : 0 < b) (x y : R) : share b x y = share b y x := by
  rw [share_eq hb, share_eq hb, add_comm ((b - |x|) * (y / b) + y)]

/-! ## The range of a share -/

theorem joint_le (hb : 0 < b) (hx : |x| ≤ b) (hy : |y| ≤ b) : joint b x y ≤ b := by
  rw [joint_eq hb.ne']
  have hprod := mul_nonneg (sub_nonneg.mpr hx) (sub_nonneg.mpr hy)
  exact sub_le_self b (div_nonneg hprod hb.le)

theorem abs_le_joint (hb : 0 < b) (hx : |x| ≤ b) : |x| ≤ joint b x y := by
  have hpart : |x| * |y| / b ≤ |y| := by
    rw [div_le_iff₀ hb, mul_comm]
    exact mul_le_mul_of_nonneg_left hx (abs_nonneg y)
  rw [joint]
  linarith

theorem abs_share_le (hb : 0 < b) (hx : |x| ≤ b) (hy : |y| ≤ b) : |share b x y| ≤ b := by
  have hjoint := joint_le hb hx hy
  have hnonneg : 0 ≤ joint b x y := (abs_nonneg x).trans (abs_le_joint hb hx)
  rcases share_cases b x y with ⟨h, hs⟩ | ⟨-, -, hs⟩ | ⟨-, -, hs⟩
  · rw [abs_le] at hx hy ⊢
    rw [hs]
    rcases mul_nonpos_iff.mp h with ⟨h0x, h0y⟩ | ⟨h0x, h0y⟩
    · constructor <;> linarith
    · constructor <;> linarith
  · rwa [hs, abs_of_nonneg hnonneg]
  · rwa [hs, abs_neg, abs_of_nonneg hnonneg]

/-! ## Shares grow with both coordinates -/

theorem share_mono_left {x' : R} (hb : 0 < b) (hy : |y| ≤ b) (hx : x ≤ x') :
    share b x y ≤ share b x' y := by
  have hmove : (|x'| - |x|) * y ≤ (x' - x) * b := by
    calc (|x'| - |x|) * y ≤ |(|x'| - |x|) * y| := le_abs_self _
      _ = |(|x'| - |x|)| * |y| := abs_mul _ _
      _ ≤ |x' - x| * b :=
        mul_le_mul (abs_abs_sub_abs_le x' x) hy (abs_nonneg y) (abs_nonneg _)
      _ = (x' - x) * b := by rw [abs_of_nonneg (sub_nonneg.mpr hx)]
  have hslope : |y| * (x' - x) ≤ b * (x' - x) :=
    mul_le_mul_of_nonneg_right hy (sub_nonneg.mpr hx)
  have hdiff : share b x' y - share b x y =
      ((x' - x) * b - (|x'| - |x|) * y + (b * (x' - x) - |y| * (x' - x))) / (2 * b) := by
    rw [share_eq hb, share_eq hb]
    field_simp
    ring
  have hnum : 0 ≤ (x' - x) * b - (|x'| - |x|) * y + (b * (x' - x) - |y| * (x' - x)) := by
    linarith
  rw [← sub_nonneg, hdiff]
  exact div_nonneg hnum (by linarith)

theorem share_mono_right {y' : R} (hb : 0 < b) (hx : |x| ≤ b) (hy : y ≤ y') :
    share b x y ≤ share b x y' := by
  rw [share_comm hb x y, share_comm hb x y']
  exact share_mono_left hb hx hy

/-- Between two deflections to one side, one of the two shares changes by all of the difference. -/
theorem share_differs {x' : R} (h : 0 ≤ x * x') (y : R) :
    share b x' y - share b x y = x' - x ∨ share b (-x') y - share b (-x) y = x - x' := by
  have hcancel : (x * y ≤ 0 ∧ x' * y ≤ 0) ∨ (-x * y ≤ 0 ∧ -x' * y ≤ 0) := by
    simp only [neg_mul, neg_nonpos]
    rcases mul_nonneg_iff.mp h with ⟨hx, hx'⟩ | ⟨hx, hx'⟩
    · rcases le_total y 0 with hy | hy
      · exact Or.inl ⟨mul_nonpos_of_nonneg_of_nonpos hx hy, mul_nonpos_of_nonneg_of_nonpos hx' hy⟩
      · exact Or.inr ⟨mul_nonneg hx hy, mul_nonneg hx' hy⟩
    · rcases le_total y 0 with hy | hy
      · exact Or.inr ⟨mul_nonneg_of_nonpos_of_nonpos hx hy, mul_nonneg_of_nonpos_of_nonpos hx' hy⟩
      · exact Or.inl ⟨mul_nonpos_of_nonpos_of_nonneg hx hy, mul_nonpos_of_nonpos_of_nonneg hx' hy⟩
  rcases hcancel with ⟨hx, hx'⟩ | ⟨hx, hx'⟩
  · left
    rw [share_cancel hx, share_cancel hx']
    ring
  · right
    rw [share_cancel hx, share_cancel hx']
    ring

/-! ## Shares of deflections -/

theorem joint_pos (hb : 0 < b) (hx : |x| ≤ b) (h : x ≠ 0) : 0 < joint b x y :=
  lt_of_lt_of_le (abs_pos.mpr h) (abs_le_joint hb hx)

/-- Only the centred stick stops both sides. -/
theorem shares_eq_zero_iff (hb : 0 < b) (hx : |x| ≤ b) :
    share b (-x) y = 0 ∧ share b x y = 0 ↔ x = 0 ∧ y = 0 := by
  constructor
  · rintro ⟨hleft, hright⟩
    have hx' : |-x| ≤ b := by rwa [abs_neg]
    rcases share_cases b x y with ⟨-, hs⟩ | ⟨h, -, hs⟩ | ⟨h, -, hs⟩
    · rcases share_cases b (-x) y with ⟨-, hs'⟩ | ⟨h, -, hs'⟩ | ⟨h, -, hs'⟩
      · exact ⟨by linarith, by linarith⟩
      · exact absurd (hs'.symm.trans hleft) (joint_pos hb hx' h.ne').ne'
      · rw [hs', neg_eq_zero] at hleft
        exact absurd hleft (joint_pos hb hx' h.ne).ne'
    · exact absurd (hs.symm.trans hright) (joint_pos hb hx h.ne').ne'
    · rw [hs, neg_eq_zero] at hright
      exact absurd hright (joint_pos hb hx h.ne).ne'
  · rintro ⟨rfl, rfl⟩
    rw [neg_zero]
    exact ⟨share_zero b, share_zero b⟩

/-- The least forward share of whole coordinates. -/
theorem one_le_share (hb : 0 < b) {m n : ℤ} (hm : |(m : R)| ≤ b) (h : 0 < share b (m : R) n) :
    1 ≤ share b (m : R) n := by
  rcases share_cases b (m : R) n with ⟨-, hs⟩ | ⟨hpos, -, hs⟩ | ⟨hneg, -, hs⟩
  · rw [hs] at h ⊢
    have hint : 0 < n + m := by exact_mod_cast h
    exact_mod_cast hint
  · have hone : (1 : R) ≤ m := by
      have hint : 0 < m := by exact_mod_cast hpos
      exact_mod_cast hint
    rw [hs]
    exact hone.trans ((le_abs_self _).trans (abs_le_joint hb hm))
  · rw [hs, neg_pos] at h
    exact absurd h (joint_pos hb hm hneg.ne).not_gt

end Shares

end Foundations.Mix
