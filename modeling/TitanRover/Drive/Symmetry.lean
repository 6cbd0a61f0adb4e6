import TitanRover.Drive.Mixing

/-! # The stick mirrored about its centre

The mix itself is symmetric in the two sides. The map to whole coordinates is not: it truncates
towards the lower end of the stick, so that between two of its steps the mirrored coordinate falls
one short, and the dead zone reaches further above the centre than below it. -/
namespace TitanRover.Drive.T16DiffAlg
open TitanRover.Arduino Foundations.Mix
set_option autoImplicit false

/-! ## The mirrored coordinate -/

/-- The position opposite to `x`. -/
def mirror (x : BitVec 16) : BitVec 16 := 3000 - x

theorem mirror_toNat {x : BitVec 16} (hx : 1000 ≤ x.toNat ∧ x.toNat ≤ 2000) :
    (mirror x).toNat = 3000 - x.toNat := by
  have hthree : (3000 : BitVec 16).toNat = 3000 := rfl
  rw [mirror, BitVec.toNat_sub, hthree]
  omega

theorem coordInt_mirror {x : BitVec 16} (hx : 1000 ≤ x.toNat ∧ x.toNat ≤ 2000) :
    coordInt (mirror x) = if 5 ∣ x.toNat then -coordInt x else -coordInt x - 1 := by
  rw [coordInt_eq, coordInt_eq, mirror_toNat hx]
  split_ifs <;> omega

/-- A position and its mirror image are told apart as such. -/
def Opposed (x : BitVec 16) : Prop := 5 ∣ x.toNat ∨ InDeadZone x ∧ InDeadZone (mirror x)

theorem stickInt_mirror_iff {x : BitVec 16} (hx : 1000 ≤ x.toNat ∧ x.toNat ≤ 2000) :
    stickInt (mirror x) = -stickInt x ↔ Opposed x := by
  have hcoord := coordInt_eq x
  have hmirror := coordInt_mirror hx
  have htoNat := mirror_toNat hx
  simp only [stickInt, Opposed, InDeadZone, abs_lt]
  split_ifs at hmirror ⊢ <;> omega

theorem stickInt_same_side {x : BitVec 16} (hx : 1000 ≤ x.toNat ∧ x.toNat ≤ 2000) :
    0 ≤ stickInt x ∧ stickInt (mirror x) ≤ 0 ∨ stickInt x ≤ 0 ∧ 0 ≤ stickInt (mirror x) := by
  have hmirror := coordInt_mirror hx
  simp only [stickInt, abs_lt]
  split_ifs at hmirror ⊢ <;> omega

/-! ## The mirrored powers -/

/-- The stick moved to the mirrored position swaps the two powers. -/
structure Swapped (d : T16DiffAlg) (x y : BitVec 16) : Prop where
  left : (d.calcSpeed (mirror x) y).getPowLeft = (d.calcSpeed x y).getPowRight
  right : (d.calcSpeed (mirror x) y).getPowRight = (d.calcSpeed x y).getPowLeft

theorem swapped_of_opposed (d : T16DiffAlg) {x : BitVec 16} (y : BitVec 16)
    (h : stickX (mirror x) = -stickX x) : Swapped d x y := by
  constructor
  · rw [(calcSpeed_powers d _ y).1, (calcSpeed_powers d x y).2, leftShare, h, neg_neg, rightShare]
  · rw [(calcSpeed_powers d _ y).2, (calcSpeed_powers d x y).1, rightShare, h, leftShare]

/-- Shares that are at least 1 apart are sent different powers. -/
theorem sidePower_ne {t p q : ℚ} (ht : Throttle t) (hleast : 2 / 5 ≤ t) (hp : |p| ≤ 100)
    (hq : |q| ≤ 100) (h : 1 ≤ |p - q|) : sidePower t p ≠ sidePower t q := by
  intro hsame
  have hfloor : ⌊1500 + 4 * t * p⌋ = ⌊1500 + 4 * t * q⌋ := by
    rw [← (sidePower_powered ht hp).value, ← (sidePower_powered ht hq).value, hsame]
  have hclose := Int.abs_sub_lt_one_of_floor_eq_floor hfloor
  have hdiff : 1500 + 4 * t * p - (1500 + 4 * t * q) = 4 * t * (p - q) := by ring
  rw [hdiff, abs_mul, abs_of_nonneg (by linarith : (0 : ℚ) ≤ 4 * t)] at hclose
  have hmul := mul_le_mul (by linarith : 8 / 5 ≤ 4 * t) h (by norm_num)
    (by linarith : (0 : ℚ) ≤ 4 * t)
  linarith

theorem swapped_of_unarmed {d : T16DiffAlg} (h : d.maxThrottle = 0) (x y : BitVec 16) :
    Swapped d x y := by
  constructor
  · rw [(calcSpeed_powers d _ y).1, (calcSpeed_powers d x y).2, h, sidePower_idle (zero_mul _),
      sidePower_idle (zero_mul _)]
  · rw [(calcSpeed_powers d _ y).2, (calcSpeed_powers d x y).1, h, sidePower_idle (zero_mul _),
      sidePower_idle (zero_mul _)]

/-- On one of the sides the mirrored stick asks for a share that is at least 1 off. -/
theorem shares_apart {x : BitVec 16} (hx : 1000 ≤ x.toNat ∧ x.toNat ≤ 2000) (h : ¬ Opposed x)
    (y : BitVec 16) :
    1 ≤ |leftShare (mirror x) y - rightShare x y| ∨ 1 ≤ |rightShare (mirror x) y - leftShare x y| := by
  have hsum : stickInt (mirror x) + stickInt x ≠ 0 := fun h0 =>
    h ((stickInt_mirror_iff hx).mp (eq_neg_of_add_eq_zero_left h0))
  have habs : 1 ≤ |(stickInt (mirror x) : ℚ) + stickInt x| := by
    exact_mod_cast Int.one_le_abs hsum
  have hside : 0 ≤ -(stickInt x : ℚ) * stickInt (mirror x) := by
    rcases stickInt_same_side hx with ⟨h1, h2⟩ | ⟨h1, h2⟩
    · have hprod := mul_nonpos_of_nonneg_of_nonpos h1 h2
      exact_mod_cast (by linarith : 0 ≤ -stickInt x * stickInt (mirror x))
    · have hprod := mul_nonpos_of_nonpos_of_nonneg h1 h2
      exact_mod_cast (by linarith : 0 ≤ -stickInt x * stickInt (mirror x))
  rw [leftShare, leftShare, rightShare, rightShare, stickX_int, stickX_int, Int.cast_neg,
    Int.cast_neg, neg_neg, neg_neg]
  rcases share_differs (b := 100) hside (stickY y) with hdiff | hdiff
  · left
    rwa [hdiff, sub_neg_eq_add]
  · right
    rw [neg_neg] at hdiff
    rwa [hdiff, ← neg_add', abs_neg, add_comm]

/-- Once a throttle has been accepted, the powers are swapped exactly where the positions are
opposed; the idle powers of an unarmed object are the same on both sides. -/
theorem swapped_iff (calls : List Call) {x : BitVec 16} (hx : 1000 ≤ x.toNat ∧ x.toNat ≤ 2000)
    (y : BitVec 16) :
    Swapped (after init calls) x y ↔ (after init calls).inputPwmMTH = 0 ∨ Opposed x := by
  constructor
  · intro hswapped
    by_contra hnot
    rw [not_or] at hnot
    have haccepted := after_accepted init calls hnot.1
    have hleast := haccepted.least
    obtain ⟨hleft, hright⟩ := calcSpeed_powers (after init calls) x y
    obtain ⟨hleft', hright'⟩ := calcSpeed_powers (after init calls) (mirror x) y
    rcases shares_apart hx hnot.2 y with hapart | hapart
    · refine sidePower_ne haccepted.isThrottle hleast (abs_leftShare_le _ y)
        (abs_rightShare_le x y) hapart ?_
      rw [← hleft', ← hright, hswapped.left]
    · refine sidePower_ne haccepted.isThrottle hleast (abs_rightShare_le _ y)
        (abs_leftShare_le x y) hapart ?_
      rw [← hright', ← hleft, hswapped.right]
  · rintro (hunarmed | hopposed)
    · rcases after_armed calls with h | h
      · exact swapped_of_unarmed h.throttle x y
      · have hlow := h.low
        rw [hunarmed] at hlow
        exact absurd hlow (by decide)
    · apply swapped_of_opposed
      have hint := (stickInt_mirror_iff hx).mpr hopposed
      rw [stickX_int, stickX_int, hint, Int.cast_neg]

theorem swapped_iff_right :
    Swapped (after init [.setMaxThrottle 1500]) 1700 1600 ↔
      (after init [.setMaxThrottle 1500]).inputPwmMTH = 0 ∨ Opposed 1700 :=
  swapped_iff [.setMaxThrottle 1500] (by decide) 1600

/-- Full right, but for one microsecond, is not the mirror image of full left. -/
theorem mirrored_not_swapped :
    ¬ ∀ (calls : List Call) (x y : BitVec 16), 1000 ≤ x.toNat ∧ x.toNat ≤ 2000 →
      Swapped (after init calls) x y := by
  intro hall
  have h := (swapped_iff [.setMaxThrottle 2000] (by decide) 1500).mp
    (hall [.setMaxThrottle 2000] 1001 1500 (by decide))
  exact absurd h (by unfold Opposed InDeadZone; decide +kernel)
end TitanRover.Drive.T16DiffAlg
