import TitanRover.Arduino.Core
import TitanRover.Foundations.Mix

/-! # T16_DiffAlg: the differential mixing of the drive library

The object's fields are carried as the class declares them. The one bound the drive program rests
on is `calcSpeed_power_range`: with a throttle of at most 90% both powers stay within 360
microseconds of the idle signal, whatever the stick inputs. -/
namespace TitanRover.Drive
open TitanRover.Arduino
set_option autoImplicit false

def maxFwd : ℚ := 1900
def maxRev : ℚ := 1100

structure T16DiffAlg where
  inputPwmX : BitVec 16
  inputPwmY : BitVec 16
  inputPwmMTH : BitVec 16
  xCoord : ℚ
  yCoord : ℚ
  v : ℚ
  w : ℚ
  propL : ℚ
  propR : ℚ
  maxThrottle : ℚ
  power0 : BitVec 16
  power1 : BitVec 16

namespace T16DiffAlg

/-- The constructor, on the zeroed storage of a global object. -/
def init : T16DiffAlg where
  inputPwmX := 0
  inputPwmY := 0
  inputPwmMTH := 0
  xCoord := 0
  yCoord := 0
  v := 0
  w := 0
  propL := 0
  propR := 0
  maxThrottle := 0
  power0 := 0
  power1 := 0

def getPowLeft (d : T16DiffAlg) : BitVec 16 := d.power0
def getPowRight (d : T16DiffAlg) : BitVec 16 := d.power1
def getMaxThrottle (d : T16DiffAlg) : ℚ := d.maxThrottle

def calcVars (d : T16DiffAlg) : T16DiffAlg :=
  { d with v := (100 - |d.xCoord|) * (d.yCoord / 100) + d.yCoord
           w := (100 - |d.yCoord|) * (d.xCoord / 100) + d.xCoord }

def calcProps (d : T16DiffAlg) : T16DiffAlg :=
  { d with propL := (d.v - d.w) / 2
           propR := (d.v + d.w) / 2 }

/-- The two branches of `calcPower` for one side. -/
def sidePower (maxThrottle prop : ℚ) : BitVec 16 :=
  if prop < 0 then toUint16 (1500 - (1500 - maxRev) * maxThrottle * (|prop| / 100))
  else toUint16 (1500 + (maxFwd - 1500) * maxThrottle * (prop / 100))

def calcPower (d : T16DiffAlg) : T16DiffAlg :=
  { d with power0 := sidePower d.maxThrottle d.propL
           power1 := sidePower d.maxThrottle d.propR }

def coord (pwm : BitVec 16) : ℚ := map pwm.toNat 1000 2000 (-100) 100

def deadzone (c : ℚ) : ℚ := if |c| < 10 then 0 else c

def calcSpeed (d : T16DiffAlg) (x y : BitVec 16) : T16DiffAlg :=
  let d := { d with inputPwmX := constrain x 1000 2000, inputPwmY := constrain y 1000 2000 }
  let d := { d with xCoord := coord d.inputPwmX, yCoord := coord d.inputPwmY }
  let d := { d with xCoord := deadzone d.xCoord, yCoord := deadzone d.yCoord }
  if d.xCoord = 0 ∧ d.yCoord = 0 then { d with power0 := 1500, power1 := 1500 }
  else calcPower (calcProps (calcVars { d with xCoord := d.xCoord * -1 }))

/-- The difference in the jitter test is taken in `uint16_t`, so it wraps below zero. -/
def setMaxThrottle (d : T16DiffAlg) (z : BitVec 16) : T16DiffAlg :=
  if (d.inputPwmMTH - z).toNat ≤ 20 then d
  else
    let m := constrain z 1000 2000
    { d with inputPwmMTH := m, maxThrottle := 1 / 100 * map m.toNat 1000 2000 40 90 }

/-! ## Coordinates -/

theorem constrain_pwm_range (x : BitVec 16) :
    1000 ≤ (constrain x 1000 2000).toNat ∧ (constrain x 1000 2000).toNat ≤ 2000 := by
  have h : (constrain x 1000 2000).toNat = max 1000 (min x.toNat 2000) :=
    constrain_toNat x 1000 2000 (by decide)
  omega

theorem coord_range (x : BitVec 16) : |coord (constrain x 1000 2000)| ≤ 100 := by
  have h := map_pwm_range (constrain_pwm_range x) (-100) 100 (by decide)
  rw [abs_le, coord]
  exact ⟨by exact_mod_cast h.1, by exact_mod_cast h.2⟩

theorem deadzone_range {c : ℚ} (h : |c| ≤ 100) : |deadzone c| ≤ 100 := by
  unfold deadzone
  split_ifs
  · simp
  · exact h

/-! ## The mix -/

/-- Both proportions stay within the range of the coordinates. -/
theorem mix_range {x y : ℚ} (hx : |x| ≤ 100) (hy : |y| ≤ 100) :
    |((100 - |x|) * (y / 100) + y + ((100 - |y|) * (x / 100) + x)) / 2| ≤ 100 := by
  have hb : (0 : ℚ) < 100 := by norm_num
  rw [← Foundations.Mix.share_eq hb]
  exact Foundations.Mix.abs_share_le hb hx hy

theorem mix_range_sub {x y : ℚ} (hx : |x| ≤ 100) (hy : |y| ≤ 100) :
    |((100 - |x|) * (y / 100) + y - ((100 - |y|) * (x / 100) + x)) / 2| ≤ 100 := by
  have h := mix_range (x := -x) (y := y) (by rwa [abs_neg]) hy
  rw [abs_neg] at h
  have he : (100 - |x|) * (y / 100) + y - ((100 - |y|) * (x / 100) + x) =
      (100 - |x|) * (y / 100) + y + ((100 - |y|) * (-x / 100) + -x) := by ring
  rw [he]
  exact h

theorem sidePower_range {t p : ℚ} (ht0 : 0 ≤ t) (ht : t ≤ 9 / 10) (hp : |p| ≤ 100) :
    1140 ≤ (sidePower t p).toNat ∧ (sidePower t p).toNat ≤ 1860 := by
  have habs : 0 ≤ |p| := abs_nonneg p
  have hup : t * |p| ≤ 90 := by nlinarith
  have hlow : 0 ≤ t * |p| := mul_nonneg ht0 habs
  unfold sidePower maxRev maxFwd
  split_ifs with h
  · apply toUint16_range (by push_cast; nlinarith) (by push_cast; nlinarith) (by decide)
  · rw [abs_of_nonneg (not_lt.mp h)] at hup hlow
    apply toUint16_range (by push_cast; nlinarith) (by push_cast; nlinarith) (by decide)

/-! ## What the two entry points do to the object -/

theorem calcSpeed_maxThrottle (d : T16DiffAlg) (x y : BitVec 16) :
    (d.calcSpeed x y).maxThrottle = d.maxThrottle := by
  unfold calcSpeed
  dsimp only
  split_ifs <;> rfl

theorem calcSpeed_power_range (d : T16DiffAlg) (x y : BitVec 16) (ht0 : 0 ≤ d.maxThrottle)
    (ht : d.maxThrottle ≤ 9 / 10) :
    (1140 ≤ (d.calcSpeed x y).getPowLeft.toNat ∧ (d.calcSpeed x y).getPowLeft.toNat ≤ 1860) ∧
      1140 ≤ (d.calcSpeed x y).getPowRight.toNat ∧
        (d.calcSpeed x y).getPowRight.toNat ≤ 1860 := by
  have hx := deadzone_range (coord_range x)
  have hy := deadzone_range (coord_range y)
  rw [← abs_neg, ← mul_neg_one] at hx
  unfold calcSpeed getPowLeft getPowRight
  dsimp only
  split_ifs
  · simp
  · exact ⟨sidePower_range ht0 ht (mix_range_sub hx hy), sidePower_range ht0 ht (mix_range hx hy)⟩

theorem setMaxThrottle_range (d : T16DiffAlg) (z : BitVec 16) (ht0 : 0 ≤ d.maxThrottle)
    (ht : d.maxThrottle ≤ 9 / 10) :
    0 ≤ (d.setMaxThrottle z).maxThrottle ∧ (d.setMaxThrottle z).maxThrottle ≤ 9 / 10 := by
  unfold setMaxThrottle
  split_ifs
  · exact ⟨ht0, ht⟩
  · obtain ⟨hlow, hhigh⟩ := map_pwm_range (constrain_pwm_range z) 40 90 (by decide)
    have hlow' : (40 : ℚ) ≤ map (constrain z 1000 2000).toNat 1000 2000 40 90 := by
      exact_mod_cast hlow
    have hhigh' : (map (constrain z 1000 2000).toNat 1000 2000 40 90 : ℚ) ≤ 90 := by
      exact_mod_cast hhigh
    constructor <;> dsimp only <;> linarith

end T16DiffAlg

end TitanRover.Drive
