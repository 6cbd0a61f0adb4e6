import TitanRover.Drive.Titan16Drive

/-! # Runs of `Titan16_Drive.ino`

The test of the flags is true for the x channel alone, so only an x pulse makes an iteration compute
powers, and every iteration sends the powers that it holds. The motors follow the stick as it stood
at the last x pulse; they get 0 before the first one, and keep their powers for good when the x
channel falls silent, whatever the y channel does. -/
namespace TitanRover.Titan16Drive
open TitanRover.Arduino TitanRover.Stick TitanRover.Drive.T16DiffAlg Foundations Foundations.Run
set_option autoImplicit false

/-! ## The shares of scrubbed widths -/

theorem scrubWidth_idem (w : BitVec 16) : scrubWidth (scrubWidth w) = scrubWidth w := by
  apply BitVec.eq_of_toNat_eq
  rw [scrubWidth_toNat, scrubWidth_toNat]
  omega

theorem leftShare_congr {x y x' y' : BitVec 16} (hx : scrubWidth x = scrubWidth x')
    (hy : scrubWidth y = scrubWidth y') : leftShare x y = leftShare x' y' := by
  change Mix.share 100 (- -deadzone (coord (scrubWidth x))) (deadzone (coord (scrubWidth y))) = _
  rw [hx, hy]
  rfl

theorem rightShare_congr {x y x' y' : BitVec 16} (hx : scrubWidth x = scrubWidth x')
    (hy : scrubWidth y = scrubWidth y') : rightShare x y = rightShare x' y' := by
  change Mix.share 100 (-deadzone (coord (scrubWidth x))) (deadzone (coord (scrubWidth y))) = _
  rw [hx, hy]
  rfl

/-- The span of the motors. -/
def InSpan (power : BitVec 16) : Prop := 1250 ≤ power.toNat ∧ power.toNat ≤ 1750

theorem inlinePower_inSpan {p : ℚ} (hp : |p| ≤ 100) : InSpan (inlinePower p) := by
  have hvalue := sidePower_value (t := 5 / 8) (by norm_num) (by norm_num) hp
  obtain ⟨hlow, hhigh⟩ := abs_le.mp hp
  rw [← inlinePower_eq] at hvalue
  have hmin : (1250 : ℤ) ≤ ⌊1500 + 4 * (5 / 8) * p⌋ := Int.le_floor.mpr (by push_cast; linarith)
  have hmax : ⌊1500 + 4 * (5 / 8) * p⌋ ≤ (1750 : ℤ) := by
    rw [← Int.lt_add_one_iff, Int.floor_lt]
    push_cast
    linarith
  unfold InSpan
  omega

/-! ## One iteration -/

theorem loop_idle {s : Vars} (h0 : s.bUpdateFlags = 0) {sh : Shared Channel}
    (h : ¬ Consumes Channel.flag .jlx sh) :
    (loop s sh).usPowL = s.usPowL ∧ (loop s sh).usPowR = s.usPowR := by
  have hflags : ¬ (received s sh).bUpdateFlags &&& mask ≠ 0 := by
    have hkept : (received s sh).bUpdateFlags = sh.bUpdateFlagsShared := by
      simp only [received, receive, readShared_eq, scrub, flagsInEffect_of_cleared h0]
      split_ifs <;> rfl
    rw [hkept, mask_eq]
    exact h
  have hpowers : powers (received s sh) = received s sh := if_neg hflags
  constructor
  · change (powers (received s sh)).usPowL = _
    rw [hpowers]
    rfl
  · change (powers (received s sh)).usPowR = _
    rw [hpowers]
    rfl

theorem loop_scrubbed (s : Vars) (sh : Shared Channel) (c : Channel) :
    scrubWidth ((loop s sh).input c) = scrubWidth (width s sh c) := by
  have hinput : (loop s sh).input c = (received s sh).input c := by
    change (powers (received s sh)).input c = _
    unfold powers
    split_ifs <;> rfl
  rw [hinput, received, receive_eq]
  split_ifs
  · exact scrubWidth_idem _
  · rfl

/-! ## Runs -/

section Runs
variable (inp : ℕ → Shared Channel)

/-- The width of the last pulse of channel `c` that the first `n` iterations have consumed. -/
def lastWidth (c : Channel) (n : ℕ) : BitVec 16 :=
  latest inp (Consumes Channel.flag c) (fun sh => sh.inputShared c) 0 n

/-- The last of the first `n` iterations that consumed an x pulse. -/
def steeredAt (n : ℕ) : Option ℕ :=
  latest id (fun k => Consumes Channel.flag .jlx (inp k)) some none n

/-- The power for a side with the given share. -/
def powerAt (side : BitVec 16 → BitVec 16 → ℚ) (n : ℕ) : BitVec 16 :=
  match steeredAt inp n with
  | none => 0
  | some k => inlinePower (side (lastWidth inp .jlx (k + 1)) (lastWidth inp .jly (k + 1)))

structure Steered (n : ℕ) (s : Vars) : Prop where
  input : ∀ c, scrubWidth (s.input c) = scrubWidth (lastWidth inp c n)
  powL : s.usPowL = powerAt inp leftShare n
  powR : s.usPowR = powerAt inp rightShare n
  cleared : s.bUpdateFlags = 0

theorem width_scrubbed {n : ℕ} {s : Vars} (h : Steered inp n s) (c : Channel) :
    scrubWidth (width s (inp n) c) = scrubWidth (lastWidth inp c (n + 1)) := by
  rw [width, inEffect, lastWidth, latest]
  split_ifs
  · rfl
  · exact h.input c

theorem loop_steered {n : ℕ} {s : Vars} (h : Steered inp n s) :
    Steered inp (n + 1) (loop s (inp n)) := by
  have hinput : ∀ c, scrubWidth ((loop s (inp n)).input c) =
      scrubWidth (lastWidth inp c (n + 1)) := fun c =>
    (loop_scrubbed s (inp n) c).trans (width_scrubbed inp h c)
  by_cases hx : Consumes Channel.flag .jlx (inp n)
  · have hat : steeredAt inp (n + 1) = some n := if_pos hx
    obtain ⟨hL, hR⟩ := loop_powers s hx
    refine ⟨hinput, ?_, ?_, rfl⟩
    · rw [hL, powerAt, hat, leftShare_congr (width_scrubbed inp h .jlx) (width_scrubbed inp h .jly)]
    · rw [hR, powerAt, hat, rightShare_congr (width_scrubbed inp h .jlx) (width_scrubbed inp h .jly)]
  · have hat : steeredAt inp (n + 1) = steeredAt inp n := if_neg hx
    obtain ⟨hL, hR⟩ := loop_idle h.cleared hx
    refine ⟨hinput, ?_, ?_, rfl⟩
    · rw [hL, h.powL, powerAt, powerAt, hat]
    · rw [hR, h.powR, powerAt, powerAt, hat]

variable (motors : Motor → BitVec 16)

theorem varsAt_steered (n : ℕ) : Steered inp n (varsAt motors inp n) := by
  apply invariant loop (setup motors) inp (P := Steered inp)
  · exact ⟨fun _ => rfl, rfl, rfl, rfl⟩
  · exact fun n h => loop_steered inp h

theorem powerAt_inSpan {side : BitVec 16 → BitVec 16 → ℚ} (hside : ∀ x y, |side x y| ≤ 100)
    (n : ℕ) : powerAt inp side n = 0 ∧ steeredAt inp n = none ∨ InSpan (powerAt inp side n) := by
  unfold powerAt
  cases steeredAt inp n with
  | none => exact Or.inl ⟨rfl, rfl⟩
  | some k => exact Or.inr (inlinePower_inSpan (hside _ _))

/-- What the motors have got after iteration `n`. -/
structure MotorsFollow (n : ℕ) (m : Motor → BitVec 16) : Prop where
  left : m .fl = powerAt inp leftShare n ∧ m .bl = powerAt inp leftShare n
  right : m .fr = powerAt inp rightShare n ∧ m .br = powerAt inp rightShare n
  range : ∀ motor, m motor = 0 ∧ steeredAt inp n = none ∨ InSpan (m motor)

theorem loop_motorsFollow (n : ℕ) :
    MotorsFollow inp (n + 1) (varsAt motors inp (n + 1)).motors := by
  have hs := varsAt_steered inp motors (n + 1)
  obtain ⟨hfl, hbl, hfr, hbr⟩ := loop_motors (varsAt motors inp n) (inp n)
  have hleft := hs.powL
  have hright := hs.powR
  refine ⟨⟨hfl.trans hleft, hbl.trans hleft⟩, ⟨hfr.trans hright, hbr.trans hright⟩, fun motor => ?_⟩
  have hL := powerAt_inSpan inp abs_leftShare_le (n + 1)
  have hR := powerAt_inSpan inp abs_rightShare_le (n + 1)
  rw [← hleft] at hL
  rw [← hright] at hR
  cases motor with
  | fl => exact hfl ▸ hL
  | bl => exact hbl ▸ hL
  | fr => exact hfr ▸ hR
  | br => exact hbr ▸ hR

/-- In every run each motor has the power of the stick as it stood when the last x pulse was
consumed, and keeps it for as long as no other x pulse is. -/
theorem motors_follow (n : ℕ) :
    MotorsFollow inp (n + 1) (varsAt motors inp (n + 1)).motors ∧
      ∀ m ≤ n, (∀ k, m < k → k ≤ n → ¬ Consumes Channel.flag .jlx (inp k)) →
        (varsAt motors inp (n + 1)).motors = (varsAt motors inp (m + 1)).motors := by
  refine ⟨loop_motorsFollow inp motors n, fun m hmn hsilent => ?_⟩
  have hat : steeredAt inp (n + 1) = steeredAt inp (m + 1) :=
    latest_of_none id some none (Nat.succ_le_succ hmn)
      (fun k hk hkn => hsilent k (by omega) (by omega))
  have hsame : ∀ side, powerAt inp side (n + 1) = powerAt inp side (m + 1) := fun side => by
    rw [powerAt, powerAt, hat]
  have hn := loop_motorsFollow inp motors n
  have hm := loop_motorsFollow inp motors m
  funext motor
  cases motor with
  | fl => rw [hn.left.1, hm.left.1, hsame]
  | bl => rw [hn.left.2, hm.left.2, hsame]
  | fr => rw [hn.right.1, hm.right.1, hsame]
  | br => rw [hn.right.2, hm.right.2, hsame]

end Runs

end TitanRover.Titan16Drive
