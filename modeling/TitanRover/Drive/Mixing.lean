import TitanRover.Foundations.Mix
import TitanRover.Drive.Throttle

/-! # The powers of `T16_DiffAlg`

`calcSpeed` computes the shares of the two sides in product form, through fields of the object and
with separate branches forward and reverse (`calcSpeed_powers`). In closed form each power is the
truncation of `1500 + 4 * maxThrottle * share`. -/
namespace TitanRover.Drive.T16DiffAlg
open TitanRover.Arduino Foundations.Mix
set_option autoImplicit false

/-! ## The stick -/

/-- Minus the clamped, mapped and dead-zoned x coordinate. -/
def stickX (x : BitVec 16) : ℚ := -deadzone (coord (constrain x 1000 2000))

/-- The clamped, mapped and dead-zoned y coordinate. -/
def stickY (y : BitVec 16) : ℚ := deadzone (coord (constrain y 1000 2000))

/-- The whole coordinate before the dead zone. -/
def coordInt (pwm : BitVec 16) : ℤ := map (constrain pwm 1000 2000).toNat 1000 2000 (-100) 100

theorem coordInt_eq (pwm : BitVec 16) :
    coordInt pwm = ((max 1000 (min pwm.toNat 2000) - 1000 : ℕ) : ℤ) / 5 - 100 := by
  rw [coordInt, map, constrain_pwm_toNat, Int.tdiv_eq_ediv_of_nonneg (by omega)]
  omega

theorem stickY_eq (y : BitVec 16) : stickY y = if |coordInt y| < 10 then 0 else (coordInt y : ℚ) := by
  have hcoord : coord (constrain y 1000 2000) = (coordInt y : ℚ) := rfl
  have habs : |(coordInt y : ℚ)| < 10 ↔ |coordInt y| < 10 := by
    rw [← Int.cast_abs]
    exact_mod_cast Iff.rfl
  rw [stickY, hcoord, deadzone]
  simp only [habs]

theorem stickX_eq (x : BitVec 16) : stickX x = -stickY x := rfl

/-- The whole coordinate after the dead zone. -/
def stickInt (y : BitVec 16) : ℤ := if |coordInt y| < 10 then 0 else coordInt y

theorem stickY_int (y : BitVec 16) : stickY y = stickInt y := by
  rw [stickY_eq, stickInt]
  split_ifs <;> simp

theorem stickX_int (x : BitVec 16) : stickX x = ((-stickInt x : ℤ) : ℚ) := by
  rw [stickX_eq, stickY_int, Int.cast_neg]

theorem abs_stickY_le (y : BitVec 16) : |stickY y| ≤ 100 := deadzone_range (coord_range y)

theorem abs_stickX_le (x : BitVec 16) : |stickX x| ≤ 100 := by
  rw [stickX_eq, abs_neg]
  exact abs_stickY_le x

theorem stickY_mono {y y' : BitVec 16} (h : y ≤ y') : stickY y ≤ stickY y' := by
  have hint : coordInt y ≤ coordInt y' := by
    rw [BitVec.le_def] at h
    rw [coordInt_eq, coordInt_eq]
    omega
  have hcast : (coordInt y : ℚ) ≤ coordInt y' := by exact_mod_cast hint
  rw [stickY_eq, stickY_eq]
  split_ifs with hin hin' hin'
  · exact le_refl _
  · rw [abs_lt] at hin hin'
    exact_mod_cast (by omega : 0 ≤ coordInt y')
  · rw [abs_lt] at hin hin'
    exact_mod_cast (by omega : coordInt y ≤ 0)
  · exact hcast

/-- The positions of one axis in which the dead zone takes it for centred. -/
def InDeadZone (pwm : BitVec 16) : Prop := 1455 ≤ pwm.toNat ∧ pwm.toNat ≤ 1549

theorem stickY_eq_zero_iff (y : BitVec 16) : stickY y = 0 ↔ InDeadZone y := by
  have hin : |coordInt y| < 10 ↔ InDeadZone y := by
    rw [abs_lt, coordInt_eq, InDeadZone]
    omega
  rw [stickY_eq, ← hin]
  split_ifs with h
  · exact iff_of_true rfl h
  · refine iff_of_false (fun h0 => ?_) h
    have hzero : coordInt y = 0 := by exact_mod_cast h0
    exact h (by rw [hzero]; decide)

theorem stickX_eq_zero_iff (x : BitVec 16) : stickX x = 0 ↔ InDeadZone x := by
  rw [stickX_eq, neg_eq_zero, stickY_eq_zero_iff]

/-! ## The shares -/

def rightShare (x y : BitVec 16) : ℚ := share 100 (stickX x) (stickY y)
def leftShare (x y : BitVec 16) : ℚ := share 100 (-stickX x) (stickY y)

/-- The proportions that the code computes for a stick position. -/
def proportions (d : T16DiffAlg) (x y : BitVec 16) : T16DiffAlg :=
  calcProps (calcVars { d with xCoord := stickX x, yCoord := stickY y })

theorem proportions_propR (d : T16DiffAlg) (x y : BitVec 16) :
    (proportions d x y).propR = rightShare x y :=
  (share_eq (by norm_num) (stickX x) (stickY y)).symm

theorem proportions_propL (d : T16DiffAlg) (x y : BitVec 16) :
    (proportions d x y).propL = leftShare x y := by
  rw [leftShare, share_eq (by norm_num), abs_neg]
  simp only [proportions, calcProps, calcVars]
  ring

theorem abs_rightShare_le (x y : BitVec 16) : |rightShare x y| ≤ 100 :=
  abs_share_le (by norm_num) (abs_stickX_le x) (abs_stickY_le y)

theorem abs_leftShare_le (x y : BitVec 16) : |leftShare x y| ≤ 100 :=
  abs_share_le (by norm_num) (by rw [abs_neg]; exact abs_stickX_le x) (abs_stickY_le y)

/-! ## The powers -/

theorem sidePower_eq (t p : ℚ) : sidePower t p = toUint16 (1500 + 4 * t * p) := by
  unfold sidePower maxRev maxFwd
  split_ifs with h
  · rw [abs_of_neg h]
    congr 1
    ring
  · congr 1
    ring

/-- Without a throttle or a share a side is sent the idle signal. -/
theorem sidePower_idle {t p : ℚ} (h : t * p = 0) : sidePower t p = 1500 := by
  rw [sidePower_eq, mul_assoc, h, mul_zero, add_zero]
  decide +kernel

theorem calcSpeed_dead (d : T16DiffAlg) {x y : BitVec 16} (h : stickX x = 0 ∧ stickY y = 0) :
    (d.calcSpeed x y).getPowLeft = 1500 ∧ (d.calcSpeed x y).getPowRight = 1500 := by
  have hcond : deadzone (coord (constrain x 1000 2000)) = 0 ∧
      deadzone (coord (constrain y 1000 2000)) = 0 := ⟨neg_eq_zero.mp h.1, h.2⟩
  unfold calcSpeed getPowLeft getPowRight
  dsimp only
  rw [if_pos hcond]
  exact ⟨rfl, rfl⟩

theorem calcSpeed_moving (d : T16DiffAlg) {x y : BitVec 16} (h : ¬ (stickX x = 0 ∧ stickY y = 0)) :
    (d.calcSpeed x y).propL = leftShare x y ∧ (d.calcSpeed x y).propR = rightShare x y ∧
      (d.calcSpeed x y).getPowLeft = sidePower d.maxThrottle (leftShare x y) ∧
      (d.calcSpeed x y).getPowRight = sidePower d.maxThrottle (rightShare x y) := by
  have hcond : ¬ (deadzone (coord (constrain x 1000 2000)) = 0 ∧
      deadzone (coord (constrain y 1000 2000)) = 0) := fun hc => h ⟨neg_eq_zero.mpr hc.1, hc.2⟩
  have hx : deadzone (coord (constrain x 1000 2000)) * -1 = stickX x := mul_neg_one _
  rw [← proportions_propL d, ← proportions_propR d]
  unfold calcSpeed getPowLeft getPowRight
  dsimp only
  rw [if_neg hcond, hx]
  exact ⟨rfl, rfl, rfl, rfl⟩

/-- The early return of the dead zone agrees with the mix of the centred stick. -/
theorem calcSpeed_powers (d : T16DiffAlg) (x y : BitVec 16) :
    (d.calcSpeed x y).getPowLeft = sidePower d.maxThrottle (leftShare x y) ∧
      (d.calcSpeed x y).getPowRight = sidePower d.maxThrottle (rightShare x y) := by
  by_cases hdead : stickX x = 0 ∧ stickY y = 0
  · rw [leftShare, rightShare, hdead.1, hdead.2, neg_zero, share_zero, sidePower_idle (mul_zero _)]
    exact calcSpeed_dead d hdead
  · exact (calcSpeed_moving d hdead).2.2

/-! ## The throttle of a history -/

/-- A throttle in whole percent of at most 90, which is 0 only before the first one is accepted. -/
def Throttle (t : ℚ) : Prop := ∃ percent : ℤ, 0 ≤ percent ∧ percent ≤ 90 ∧ t = percent / 100

theorem Accepted.percent {d : T16DiffAlg} (h : Accepted d) :
    ∃ percent : ℤ, 40 ≤ percent ∧ percent ≤ 90 ∧ d.maxThrottle = percent / 100 := by
  obtain ⟨hlow, hhigh⟩ := map_pwm_range ⟨h.low, h.high⟩ 40 90 (by decide)
  refine ⟨_, hlow, hhigh, ?_⟩
  rw [h.throttle, throttleOf]
  ring

/-- The least throttle that is accepted. -/
theorem Accepted.least {d : T16DiffAlg} (h : Accepted d) : 2 / 5 ≤ d.maxThrottle := by
  obtain ⟨percent, h40, -, ht⟩ := h.percent
  have h40' : (40 : ℚ) ≤ percent := by exact_mod_cast h40
  rw [ht]
  linarith

theorem Accepted.isThrottle {d : T16DiffAlg} (h : Accepted d) : Throttle d.maxThrottle := by
  obtain ⟨percent, hlow, hhigh, ht⟩ := h.percent
  exact ⟨percent, by omega, hhigh, ht⟩

theorem call_throttle {d : T16DiffAlg} (h : Throttle d.maxThrottle) (c : Call) :
    Throttle (d.call c).maxThrottle := by
  cases c with
  | calcSpeed x y =>
    change Throttle (d.calcSpeed x y).maxThrottle
    rwa [calcSpeed_maxThrottle]
  | setMaxThrottle z =>
    change Throttle (d.setMaxThrottle z).maxThrottle
    rcases setMaxThrottle_cases d z with ⟨-, hs⟩ | ⟨-, hs⟩
    · rwa [hs]
    · rw [hs]
      exact (accepted_constrain d z).isThrottle

/-- On a global object, whose storage is zeroed, the throttle is defined from the start. -/
theorem after_throttle (calls : List Call) : Throttle (after init calls).maxThrottle :=
  after_induction (P := fun d => Throttle d.maxThrottle)
    ⟨0, le_refl _, by decide, by norm_num [init, construct]⟩ (fun _ c h => call_throttle h c) calls

/-! ## The exact powers -/

/-- What a side with throttle `t` and share `p` is sent. -/
structure Powered (t p : ℚ) (power : BitVec 16) : Prop where
  value : (power.toNat : ℤ) = ⌊1500 + 4 * t * p⌋
  share_range : |p| ≤ 100
  fits : 0 ≤ 1500 + 4 * t * p ∧ 1500 + 4 * t * p < 2 ^ 16
  range : |(power.toNat : ℚ) - 1500| ≤ 400 * t

theorem power_fits {t p : ℚ} (h0 : 0 ≤ t) (h90 : t ≤ 9 / 10) (hp : |p| ≤ 100) :
    0 ≤ 1500 + 4 * t * p ∧ 1500 + 4 * t * p < 2 ^ 16 := by
  have habs : |4 * t * p| ≤ 400 * t := by
    rw [abs_mul, abs_of_nonneg (by linarith : 0 ≤ 4 * t)]
    linarith [mul_le_mul_of_nonneg_left hp (by linarith : 0 ≤ 4 * t)]
  obtain ⟨hdown, hup⟩ := abs_le.mp habs
  exact ⟨by linarith, by linarith⟩

theorem sidePower_value {t p : ℚ} (h0 : 0 ≤ t) (h90 : t ≤ 9 / 10) (hp : |p| ≤ 100) :
    ((sidePower t p).toNat : ℤ) = ⌊1500 + 4 * t * p⌋ := by
  obtain ⟨hlow, hhigh⟩ := power_fits h0 h90 hp
  rw [sidePower_eq]
  exact toUint16_toNat hlow hhigh

theorem Throttle.bounds {t : ℚ} (ht : Throttle t) : 0 ≤ t ∧ t ≤ 9 / 10 := by
  obtain ⟨percent, h0, h90, rfl⟩ := ht
  have h0' : (0 : ℚ) ≤ percent := by exact_mod_cast h0
  have h90' : (percent : ℚ) ≤ 90 := by exact_mod_cast h90
  constructor <;> linarith

/-- A whole percentage takes the power a whole number of microseconds away from idle. -/
theorem abs_floor_sub_le {p : ℚ} {d : ℤ} (h : |p| ≤ d) : |⌊1500 + p⌋ - 1500| ≤ d := by
  obtain ⟨hdown, hup⟩ := abs_le.mp h
  have hlow : 1500 - d ≤ ⌊1500 + p⌋ := by
    rw [Int.le_floor]
    push_cast
    linarith
  have hhigh : ⌊1500 + p⌋ ≤ 1500 + d := by
    have hle : 1500 + p ≤ ((1500 + d : ℤ) : ℚ) := by
      push_cast
      linarith
    exact_mod_cast (Int.floor_le _).trans hle
  rw [abs_le]
  omega

theorem sidePower_powered {t p : ℚ} (ht : Throttle t) (hp : |p| ≤ 100) :
    Powered t p (sidePower t p) := by
  obtain ⟨h0, h90⟩ := ht.bounds
  have hvalue := sidePower_value h0 h90 hp
  refine ⟨hvalue, hp, power_fits h0 h90 hp, ?_⟩
  obtain ⟨percent, -, -, ht'⟩ := id ht
  have habs : |4 * t * p| ≤ ((4 * percent : ℤ) : ℚ) := by
    rw [abs_mul, abs_of_nonneg (by linarith : 0 ≤ 4 * t)]
    have hmul := mul_le_mul_of_nonneg_left hp (by linarith : 0 ≤ 4 * t)
    rw [ht'] at hmul ⊢
    push_cast
    linarith
  have hwhole := abs_floor_sub_le habs
  rw [← hvalue] at hwhole
  have hcast : |(((sidePower t p).toNat : ℤ) : ℚ) - 1500| ≤ ((4 * percent : ℤ) : ℚ) := by
    exact_mod_cast hwhole
  rw [Int.cast_natCast] at hcast
  rw [ht'] at hcast ⊢
  push_cast at hcast
  linarith

/-- The share of the left side, by the quadrant of the stick. -/
def leftProp (X Y : ℚ) : ℚ :=
  if X * Y ≥ 0 then Y - X else SignType.sign Y * (|X| + |Y| - |X| * |Y| / 100)

def rightProp (X Y : ℚ) : ℚ :=
  if X * Y ≤ 0 then Y + X else SignType.sign Y * (|X| + |Y| - |X| * |Y| / 100)

theorem rightProp_eq (X Y : ℚ) : rightProp X Y = share 100 X Y := by
  rw [rightProp, share, joint]

theorem leftProp_eq (X Y : ℚ) : leftProp X Y = share 100 (-X) Y := by
  simp only [leftProp, share, joint, abs_neg, neg_mul, neg_nonpos, ge_iff_le, sub_eq_add_neg]

/-- After any history of a global object, both powers in closed form. -/
theorem powers_exact (calls : List Call) (x y : BitVec 16) :
    Powered (after init calls).maxThrottle (leftProp (stickX x) (stickY y))
        ((after init calls).calcSpeed x y).getPowLeft ∧
      Powered (after init calls).maxThrottle (rightProp (stickX x) (stickY y))
        ((after init calls).calcSpeed x y).getPowRight := by
  obtain ⟨hleft, hright⟩ := calcSpeed_powers (after init calls) x y
  rw [hleft, hright, leftProp_eq, rightProp_eq]
  exact ⟨sidePower_powered (after_throttle calls) (abs_leftShare_le x y),
    sidePower_powered (after_throttle calls) (abs_rightShare_le x y)⟩

end TitanRover.Drive.T16DiffAlg
