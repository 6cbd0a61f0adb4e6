import TitanRover.Drive.Mixing

/-! # How the drive responds to the stick

Both powers grow with `y`; with `x` the left one grows and the right one falls. Once a throttle has
been accepted, a side stands still exactly when its proportion is zero, because no proportion lies
between 0 and 1 and the least throttle takes a proportion of 1 past the truncation. -/
namespace TitanRover.Drive.T16DiffAlg
open TitanRover.Arduino Foundations.Mix
set_option autoImplicit false

/-! ## Monotonicity -/

theorem sidePower_mono {t p q : ℚ} (ht : Throttle t) (hp : |p| ≤ 100) (hq : |q| ≤ 100)
    (hpq : p ≤ q) : sidePower t p ≤ sidePower t q := by
  have hnonneg : 0 ≤ 4 * t := by linarith [ht.bounds.1]
  have hfloor : ⌊1500 + 4 * t * p⌋ ≤ ⌊1500 + 4 * t * q⌋ := by
    apply Int.floor_mono
    linarith [mul_le_mul_of_nonneg_left hpq hnonneg]
  rw [← (sidePower_powered ht hp).value, ← (sidePower_powered ht hq).value] at hfloor
  rw [BitVec.le_def]
  exact_mod_cast hfloor

theorem shares_mono_y (x : BitVec 16) {y y' : BitVec 16} (h : y ≤ y') :
    leftShare x y ≤ leftShare x y' ∧ rightShare x y ≤ rightShare x y' := by
  have hx := abs_stickX_le x
  exact ⟨share_mono_right (by norm_num) (by rwa [abs_neg]) (stickY_mono h),
    share_mono_right (by norm_num) hx (stickY_mono h)⟩

theorem shares_mono_x {x x' : BitVec 16} (y : BitVec 16) (h : x ≤ x') :
    leftShare x y ≤ leftShare x' y ∧ rightShare x' y ≤ rightShare x y := by
  have hx : stickX x' ≤ stickX x := neg_le_neg (stickY_mono h)
  exact ⟨share_mono_left (by norm_num) (abs_stickY_le y) (neg_le_neg hx),
    share_mono_left (by norm_num) (abs_stickY_le y) hx⟩

/-- Pushing the stick further never reduces a side's response. -/
theorem powers_monotone (calls : List Call) {x x' y y' : BitVec 16} (hx : x ≤ x') (hy : y ≤ y') :
    (((after init calls).calcSpeed x y).getPowLeft ≤
        ((after init calls).calcSpeed x y').getPowLeft ∧
      ((after init calls).calcSpeed x y).getPowRight ≤
        ((after init calls).calcSpeed x y').getPowRight) ∧
    ((after init calls).calcSpeed x y).getPowLeft ≤
        ((after init calls).calcSpeed x' y).getPowLeft ∧
      ((after init calls).calcSpeed x' y).getPowRight ≤
        ((after init calls).calcSpeed x y).getPowRight := by
  have ht := after_throttle calls
  obtain ⟨hleftY, hrightY⟩ := shares_mono_y x hy
  obtain ⟨hleftX, hrightX⟩ := shares_mono_x y hx
  simp only [(calcSpeed_powers _ _ _).1, (calcSpeed_powers _ _ _).2]
  refine ⟨⟨?_, ?_⟩, ?_, ?_⟩
  · exact sidePower_mono ht (abs_leftShare_le x y) (abs_leftShare_le x y') hleftY
  · exact sidePower_mono ht (abs_rightShare_le x y) (abs_rightShare_le x y') hrightY
  · exact sidePower_mono ht (abs_leftShare_le x y) (abs_leftShare_le x' y) hleftX
  · exact sidePower_mono ht (abs_rightShare_le x' y) (abs_rightShare_le x y) hrightX

theorem powers_monotone_right :
    (((after init [.setMaxThrottle 1500]).calcSpeed 1400 1500).getPowLeft ≤
        ((after init [.setMaxThrottle 1500]).calcSpeed 1400 1800).getPowLeft ∧
      ((after init [.setMaxThrottle 1500]).calcSpeed 1400 1500).getPowRight ≤
        ((after init [.setMaxThrottle 1500]).calcSpeed 1400 1800).getPowRight) ∧
    ((after init [.setMaxThrottle 1500]).calcSpeed 1400 1500).getPowLeft ≤
        ((after init [.setMaxThrottle 1500]).calcSpeed 1600 1500).getPowLeft ∧
      ((after init [.setMaxThrottle 1500]).calcSpeed 1600 1500).getPowRight ≤
        ((after init [.setMaxThrottle 1500]).calcSpeed 1400 1500).getPowRight :=
  powers_monotone [.setMaxThrottle 1500] (by decide) (by decide)

/-! ## Standing still -/

/-- The power is above, at or below idle as the proportion is positive, zero or negative. -/
structure Answers (p : ℚ) (power : BitVec 16) : Prop where
  forward : 1500 < power.toNat ↔ 0 < p
  idle : power.toNat = 1500 ↔ p = 0
  reverse : power.toNat < 1500 ↔ p < 0

theorem sidePower_answers {t p : ℚ} (ht : 2 / 5 ≤ t) (h90 : t ≤ 9 / 10) (hrange : |p| ≤ 100)
    (hp : 0 < p → 1 ≤ p) : Answers p (sidePower t p) := by
  have hvalue := sidePower_value (by linarith) h90 hrange
  rcases lt_trichotomy p 0 with hneg | hzero | hpos
  · have hlow : ⌊1500 + 4 * t * p⌋ < 1500 := by
      rw [Int.floor_lt]
      have hmul := mul_neg_of_pos_of_neg (by linarith : 0 < 4 * t) hneg
      push_cast
      linarith
    exact ⟨iff_of_false (by omega) hneg.not_gt, iff_of_false (by omega) hneg.ne,
      iff_of_true (by omega) hneg⟩
  · have hsame : ⌊1500 + 4 * t * p⌋ = 1500 := by
      rw [hzero, mul_zero, add_zero]
      exact Int.floor_ofNat 1500
    exact ⟨iff_of_false (by omega) hzero.not_gt, iff_of_true (by omega) hzero,
      iff_of_false (by omega) hzero.symm.not_gt⟩
  · have hhigh : 1501 ≤ ⌊1500 + 4 * t * p⌋ := by
      rw [Int.le_floor]
      have hmul := mul_le_mul (by linarith : 8 / 5 ≤ 4 * t) (hp hpos) (by norm_num)
        (by linarith : (0 : ℚ) ≤ 4 * t)
      push_cast
      linarith
    exact ⟨iff_of_true (by omega) hpos, iff_of_false (by omega) hpos.ne',
      iff_of_false (by omega) hpos.not_gt⟩

theorem idle_iff (power : BitVec 16) : power = 1500 ↔ power.toNat = 1500 := by
  constructor
  · rintro rfl
    rfl
  · exact fun h => BitVec.eq_of_toNat_eq h

theorem one_le_shares (x y : BitVec 16) :
    (0 < leftShare x y → 1 ≤ leftShare x y) ∧ (0 < rightShare x y → 1 ≤ rightShare x y) := by
  have habs := abs_stickX_le x
  rw [leftShare, rightShare, stickY_int, stickX_int]
  rw [stickX_int] at habs
  constructor
  · rw [← Int.cast_neg]
    exact one_le_share (by norm_num) (by rwa [Int.cast_neg, abs_neg])
  · exact one_le_share (by norm_num) habs

theorem calcSpeed_answers {d : T16DiffAlg} (h : Accepted d) (x y : BitVec 16) :
    Answers (leftShare x y) (d.calcSpeed x y).getPowLeft ∧
      Answers (rightShare x y) (d.calcSpeed x y).getPowRight := by
  have h90 := h.isThrottle.bounds.2
  obtain ⟨hleft, hright⟩ := calcSpeed_powers d x y
  rw [hleft, hright]
  exact ⟨sidePower_answers h.least h90 (abs_leftShare_le x y) (one_le_shares x y).1,
    sidePower_answers h.least h90 (abs_rightShare_le x y) (one_le_shares x y).2⟩

/-- The powers of a stick position, and the proportions `d` stores for it. -/
structure StopsExactly (d : T16DiffAlg) (x y : BitVec 16) : Prop where
  dead : (d.calcSpeed x y).getPowLeft = 1500 ∧ (d.calcSpeed x y).getPowRight = 1500 ↔
    InDeadZone x ∧ InDeadZone y
  left : Answers (proportions d x y).propL (d.calcSpeed x y).getPowLeft
  right : Answers (proportions d x y).propR (d.calcSpeed x y).getPowRight
  stored : ¬ (InDeadZone x ∧ InDeadZone y) →
    (d.calcSpeed x y).propL = (proportions d x y).propL ∧
      (d.calcSpeed x y).propR = (proportions d x y).propR

theorem stops_exactly (storage : T16DiffAlg) (calls : List Call) (x y : BitVec 16)
    (hm : (after storage calls).inputPwmMTH ≠ 0) : StopsExactly (after storage calls) x y := by
  obtain ⟨hL, hR⟩ := calcSpeed_answers (after_accepted storage calls hm) x y
  have hzero : stickX x = 0 ∧ stickY y = 0 ↔ InDeadZone x ∧ InDeadZone y :=
    and_congr (stickX_eq_zero_iff x) (stickY_eq_zero_iff y)
  refine ⟨?_, ?_, ?_, ?_⟩
  · have hshares : leftShare x y = 0 ∧ rightShare x y = 0 ↔ stickX x = 0 ∧ stickY y = 0 :=
      shares_eq_zero_iff (by norm_num) (abs_stickX_le x)
    rw [idle_iff, idle_iff, hL.idle, hR.idle, hshares, hzero]
  · rwa [proportions_propL]
  · rwa [proportions_propR]
  · intro hmoving
    rw [← hzero] at hmoving
    obtain ⟨hl, hr, -⟩ := calcSpeed_moving (after storage calls) hmoving
    rw [proportions_propL, proportions_propR]
    exact ⟨hl, hr⟩

theorem stops_exactly_forward : StopsExactly (after init [.setMaxThrottle 1500]) 1500 1700 :=
  stops_exactly init [.setMaxThrottle 1500] 1500 1700 (by decide +kernel)

end TitanRover.Drive.T16DiffAlg
