import TitanRover.Stick.Solvers
import TitanRover.Stick.Steering

/-! # `2DOF`

The sketch places the target by the stick, and turns both links by arctangents of one argument. The
first link is turned from the line to the target, the second one points from the elbow to it, and
each of the two only as far as the quotient tells its direction. `quotients_end_iff` says at which
targets the arm ends. -/
namespace TitanRover.Stick.TwoDOF
open TitanRover.Arduino Foundations Foundations.Run
set_option autoImplicit false

/-! ## The sketch -/

section Sketch
variable {R : Type*} [Field R] [LinearOrder R]

def length1 : ℤ := 900
def length2 : ℤ := 1100

/-- `acos` at the shoulder, for the distance `_length`. -/
def gamma (m : Maths R) (x y l1 l2 : R) : Double R :=
  (m.sqrt (x * x + y * y)).bind (fun length =>
    (divide (length * length + l1 * l1 - l2 * l2) (((2 : ℤ) : R) * l1 * length)).bind m.acos)

def solveTheta1 (m : Maths R) (x y l1 l2 : R) : Double R :=
  let x := if x = 0 then 1 else x
  (gamma m x y l1 l2).map (fun gamma => m.atan (y / x) - gamma)

/-- The `atan` of a quotient, which is infinite for a zero divisor. -/
def atanQuotient (m : Maths R) (b a : R) : Double R :=
  if a ≠ 0 then some (m.atan (b / a))
  else if 0 < b then some (m.PI / ((2 : ℤ) : R))
  else if b < 0 then some (-(m.PI / ((2 : ℤ) : R)))
  else none

def solveTheta2 (m : Maths R) (x y l1 : R) (theta1 : Double R) : Double R :=
  theta1.bind (fun t1 =>
    (atanQuotient m (y - l1 * m.sin t1) (x - l1 * m.cos t1)).map (fun t => t - t1))

/-- The position that the stick places an axis at: the limits stand in one chain with the shifts. -/
def place (w : BitVec 16) : ℤ :=
  advanceOrClip 2000 w (Arduino.map w.toNat 1000 2000 (-2200) 2200)

structure Vars (R : Type*) extends Statics Axis where
  XEPOS : ℤ
  YEPOS : ℤ
  theta1 : Double R
  theta2 : Double R
  usAJNT1 : ℤ
  usAJNT2 : ℤ
  servos : Servo → BitVec 16

/-- The servos are attached at whatever command they hold. -/
def setup (servos : Servo → BitVec 16) : Vars R where
  toStatics := Statics.init
  XEPOS := 1060
  YEPOS := 1600
  theta1 := some 0
  theta2 := some 0
  usAJNT1 := 0
  usAJNT2 := 0
  servos := applyWrites servos
    [(.armJoint1, centerSignal), (.armJoint2, centerSignal), (.endeJoint, endeSignal)]

def received (s : Vars R) (sh : Shared Axis) : Vars R :=
  { s with toStatics := receive Axis.flag (logicalOr xCoordFlag yCoordFlag) s.toStatics sh }

def locate (s : Vars R) : Vars R :=
  { s with
    XEPOS := place (s.input .x)
    YEPOS := place (s.input .y) }

variable (m : Maths R)

/-- `solveXWrist` and `solveYWrist` return what they are called with. -/
def solve (s : Vars R) : Vars R :=
  let theta1 := solveTheta1 m s.XEPOS s.YEPOS length1 length2
  { s with
    theta1 := theta1
    theta2 := solveTheta2 m s.XEPOS s.YEPOS length1 theta1 }

def InTurn (deg : ℤ) : Prop := deg ≥ -140 ∧ deg ≤ 140

instance (deg : ℤ) : Decidable (InTurn deg) := inferInstanceAs (Decidable (_ ∧ _))

def command (s : Vars R) : Vars R :=
  let theta1Deg := degrees m s.theta1
  let theta2Deg := degrees m s.theta2
  if InTurn theta1Deg ∧ InTurn theta2Deg then
    let usAJNT1 := Arduino.map theta1Deg (-140) 140 1000 2000
    let usAJNT2 := Arduino.map theta2Deg (-140) 140 1000 2000
    { s with
      usAJNT1 := usAJNT1
      usAJNT2 := usAJNT2
      servos := applyWrites s.servos
        (setSpeed .armJoint1 usAJNT1 ++ setSpeed .armJoint2 usAJNT2 ++ setSpeed .endeJoint 1500) }
  else s

def loop (s : Vars R) (sh : Shared Axis) : Vars R :=
  { command m (solve m (locate (received s sh))) with bUpdateFlags := 0 }

def varsAt (servos : Servo → BitVec 16) (inp : ℕ → Shared Axis) : ℕ → Vars R :=
  stateAt (loop m) (setup servos) inp

theorem interrupted_run (servos : Servo → BitVec 16) (events : List (Option (Interrupt Axis))) :
    ∃ inp n, (events.foldl (Snapshot.act (system Axis.handler (loop m)))
      (Radio.init, setup servos)).2 = varsAt m servos inp n :=
  interleaving_refines Axis.handler (loop m) (setup servos) events

end Sketch

/-! ## The limits -/

/-- The limits are never reached in the chain: where the stick is not held over, the position is
within half of them. -/
theorem place_eq (w : BitVec 16) :
    place w = Arduino.map w.toNat 1000 2000 (-2200) 2200 + 50 * lever w := by
  rw [place, advanceOrClip]
  rcases lever_cases w with ⟨hup, -, h⟩ | ⟨hup, hdown, h⟩ | ⟨hup, hdown, h⟩
  · rw [if_pos hup, h]
    rfl
  · rw [if_neg hup, if_pos hdown, h]
    rfl
  · have hlow : 1250 ≤ w.toNat := by simpa [BitVec.lt_def] using hdown
    have hhigh : w.toNat ≤ 1750 := by simpa [BitVec.lt_def] using hup
    have hpos : 0 ≤ ((w.toNat : ℤ) - 1000) * (2200 - -2200) := by omega
    rw [if_neg hup, if_neg hdown, h, Arduino.map, Int.tdiv_eq_ediv_of_nonneg hpos, if_neg (by omega),
      if_neg (by omega), mul_zero, add_zero]

/-! ## The second link -/

section Quotients
variable (toInt : Double ℝ → ℤ) {x y l1 l2 : ℝ}

/-- The quotient tells the direction of a point that is not to the left. -/
theorem atanQuotient_direction {a b l : ℝ} (hl : 0 < l) (hdist : a * a + b * b = l * l)
    (ha : 0 ≤ a) : ∃ t, atanQuotient (realMaths toInt) b a = some t ∧
      l * Real.cos t = a ∧ l * Real.sin t = b := by
  rcases ha.eq_or_lt with h0 | hpos
  · rw [← h0, mul_zero, zero_add, mul_self_eq_mul_self_iff] at hdist
    rcases hdist with rfl | rfl
    · refine ⟨Real.pi / ((2 : ℤ) : ℝ), ?_, ?_, ?_⟩
      · rw [atanQuotient, if_neg (not_not.mpr h0.symm), if_pos hl]
        rfl
      · rw [Int.cast_ofNat, Real.cos_pi_div_two, mul_zero, h0]
      · rw [Int.cast_ofNat, Real.sin_pi_div_two, mul_one]
    · refine ⟨-(Real.pi / ((2 : ℤ) : ℝ)), ?_, ?_, ?_⟩
      · rw [atanQuotient, if_neg (not_not.mpr h0.symm), if_neg (not_lt.mpr (neg_nonpos.mpr hl.le)),
          if_pos (neg_neg_of_pos hl)]
        rfl
      · rw [Int.cast_ofNat, Real.cos_neg, Real.cos_pi_div_two, mul_zero, h0]
      · rw [Int.cast_ofNat, Real.sin_neg, Real.sin_pi_div_two, mul_neg, mul_one]
  · have hdirection := arctan_direction hpos b
    rw [sq, sq, hdist, Real.sqrt_mul_self hl.le] at hdirection
    exact ⟨Real.arctan (b / a), if_pos hpos.ne', hdirection⟩

/-- The angle of a quotient is never to the left. -/
theorem cos_atanQuotient {a b t : ℝ} (h : atanQuotient (realMaths toInt) b a = some t) :
    0 ≤ Real.cos t := by
  unfold atanQuotient at h
  split_ifs at h with h1 h2 h3
  · rw [← Option.some.inj h]
    exact (Real.cos_arctan_pos _).le
  · rw [← Option.some.inj h, Int.cast_ofNat]
    exact Real.cos_pi_div_two.ge
  · rw [← Option.some.inj h, Int.cast_ofNat, Real.cos_neg]
    exact Real.cos_pi_div_two.ge

/-- Where the first link ends decides: the second one leads to the target exactly when the elbow is
as far from it as the link is long, and not to the right of it. -/
theorem second_link_iff (h2 : 0 < l2) (t1 : ℝ) :
    Solves l1 l2 x y (some t1) (solveTheta2 (realMaths toInt) x y l1 (some t1)) ↔
      (x - l1 * Real.cos t1) * (x - l1 * Real.cos t1) +
          (y - l1 * Real.sin t1) * (y - l1 * Real.sin t1) = l2 * l2 ∧
        l1 * Real.cos t1 ≤ x := by
  constructor
  · rintro ⟨u, t2, hu, htheta, hends⟩
    obtain rfl := Option.some.inj hu
    obtain ⟨t, ht, hsum⟩ := Option.map_eq_some_iff.mp htheta
    have hangle : t1 + t2 = t := by
      rw [← hsum]
      ring
    have hcos := cos_atanQuotient toInt ht
    have hx := hends.x
    have hy := hends.y
    rw [hangle] at hx hy
    have hpyth := Real.sin_sq_add_cos_sq t
    constructor
    · rw [← hx, ← hy, add_sub_cancel_left, add_sub_cancel_left]
      linear_combination l2 * l2 * hpyth
    · rw [← hx]
      exact le_add_of_nonneg_right (mul_nonneg h2.le hcos)
  · rintro ⟨hdist, hleft⟩
    obtain ⟨t, ht, hx, hy⟩ := atanQuotient_direction toInt h2 hdist (sub_nonneg.mpr hleft)
    refine ⟨t1, t - t1, rfl, ?_, ?_, ?_⟩
    · rw [solveTheta2, Option.bind_some]
      exact congrArg (Option.map fun t => t - t1) ht
    · rw [add_sub_cancel, hx, add_sub_cancel]
    · rw [add_sub_cancel, hy, add_sub_cancel]

/-! ## The first link -/

theorem gamma_eq_some_iff (h1 : 0 < l1) (h2 : 0 < l2) (hr : 0 < √(x * x + y * y)) (g : ℝ) :
    gamma (realMaths toInt) x y l1 l2 = some g ↔
      TwoLink.Reaches l1 l2 (x * x + y * y) ∧
        TwoLink.shoulderAngle l1 l2 √(x * x + y * y) = g := by
  have hnonneg := add_nonneg (mul_self_nonneg x) (mul_self_nonneg y)
  have hsqrt : (realMaths toInt).sqrt (x * x + y * y) = some √(x * x + y * y) := if_pos hnonneg
  have hden : ((2 : ℤ) : ℝ) * l1 * √(x * x + y * y) ≠ 0 := by positivity
  have hrange := TwoLink.shoulder_range_iff h1 h2 hr
  rw [gamma, hsqrt, Option.bind_some, divide, if_neg hden, Option.bind_some, TwoLink.shoulderAngle]
  rw [Real.mul_self_sqrt hnonneg] at hrange ⊢
  rw [← hrange]
  exact Option.ite_none_right_eq_some.trans (and_congr_right fun _ => Option.some_inj)

/-- The elbow of a target on the right is as far from it as the second link is long. That of one on
the left is so far from the opposite point. -/
theorem elbow_distance_iff (h1 : 0 < l1) (h2 : 0 < l2) (hx : x ≠ 0)
    (hreach : TwoLink.Reaches l1 l2 (x * x + y * y)) {t1 : ℝ}
    (ht1 : Real.arctan (y / x) - TwoLink.shoulderAngle l1 l2 √(x * x + y * y) = t1) :
    (x - l1 * Real.cos t1) * (x - l1 * Real.cos t1) +
        (y - l1 * Real.sin t1) * (y - l1 * Real.sin t1) = l2 * l2 ↔
      0 < x ∨ x * x + y * y + l1 * l1 = l2 * l2 := by
  have hr : 0 < √(x * x + y * y) := by
    have hsq := mul_self_pos.mpr hx
    have hsq' := mul_self_nonneg y
    exact Real.sqrt_pos.mpr (by linarith)
  have hreach' := hreach
  rw [← Real.mul_self_sqrt (add_nonneg (mul_self_nonneg x) (mul_self_nonneg y))] at hreach'
  rcases lt_or_gt_of_ne hx with hneg | hpos
  · have hdirection := arctan_direction (neg_pos.mpr hneg) (-y)
    rw [neg_div_neg_eq, neg_sq, neg_sq, sq, sq] at hdirection
    have hdist := TwoLink.elbow_distance h1 h2 hr hreach' hdirection.1 hdirection.2
    rw [ht1] at hdist
    have hpyth := Real.sin_sq_add_cos_sq t1
    rw [or_iff_right (not_lt.mpr hneg.le)]
    constructor
    · intro h
      linear_combination (1 / 2 : ℝ) * (h + hdist) - l1 * l1 * hpyth
    · intro h
      linear_combination (2 : ℝ) * h - hdist + 2 * l1 * l1 * hpyth
  · have hdirection := arctan_direction hpos y
    rw [sq, sq] at hdirection
    have hdist := TwoLink.elbow_distance h1 h2 hr hreach' hdirection.1 hdirection.2
    rw [ht1] at hdist
    exact iff_of_true hdist (Or.inl hpos)

/-- A target right above or below the shoulder is replaced for the first link only. -/
theorem not_solves_upright (h1 : 0 < l1) (h2 : 0 < l2) (y : ℝ) :
    ¬ Solves l1 l2 0 y (solveTheta1 (realMaths toInt) 0 y l1 l2)
      (solveTheta2 (realMaths toInt) 0 y l1 (solveTheta1 (realMaths toInt) 0 y l1 l2)) := by
  intro hsolves
  have htheta1 : solveTheta1 (realMaths toInt) 0 y l1 l2 =
      (gamma (realMaths toInt) 1 y l1 l2).map (fun g => Real.arctan (y / 1) - g) := by
    rw [solveTheta1, if_pos rfl]
    rfl
  have hr : 0 < √((1 : ℝ) * 1 + y * y) :=
    Real.sqrt_pos.mpr (add_pos_of_pos_of_nonneg (mul_pos one_pos one_pos) (mul_self_nonneg y))
  obtain ⟨t1, -, ht1, -⟩ := id hsolves
  rw [htheta1] at ht1
  obtain ⟨g, hg, hsub⟩ := Option.map_eq_some_iff.mp ht1
  obtain ⟨hreach, rfl⟩ := (gamma_eq_some_iff toInt h1 h2 hr g).mp hg
  have hone := (elbow_distance_iff h1 h2 one_ne_zero hreach hsub).mpr (Or.inl one_pos)
  rw [htheta1, ht1, second_link_iff toInt h2] at hsolves
  obtain ⟨hzero, hleft⟩ := hsolves
  linarith

theorem solves_iff (h1 : 0 < l1) (h2 : 0 < l2) :
    Solves l1 l2 x y (solveTheta1 (realMaths toInt) x y l1 l2)
        (solveTheta2 (realMaths toInt) x y l1 (solveTheta1 (realMaths toInt) x y l1 l2)) ↔
      TwoLink.Reaches l1 l2 (x * x + y * y) ∧
        (0 < x ∨ x < 0 ∧ x * x + y * y + l1 * l1 = l2 * l2) ∧
        l1 * Real.cos (Real.arctan (y / x) - TwoLink.shoulderAngle l1 l2 √(x * x + y * y)) ≤ x := by
  by_cases hx : x = 0
  · subst hx
    refine iff_of_false (not_solves_upright toInt h1 h2 y) ?_
    rintro ⟨-, hright | ⟨hleft, -⟩, -⟩
    · exact lt_irrefl 0 hright
    · exact lt_irrefl 0 hleft
  · have hr : 0 < √(x * x + y * y) := by
      have hsq := mul_self_pos.mpr hx
      have hsq' := mul_self_nonneg y
      exact Real.sqrt_pos.mpr (by linarith)
    have htheta1 : solveTheta1 (realMaths toInt) x y l1 l2 =
        (gamma (realMaths toInt) x y l1 l2).map (fun g => Real.arctan (y / x) - g) := by
      rw [solveTheta1, if_neg hx]
      rfl
    have hside : (0 < x ∨ x < 0 ∧ x * x + y * y + l1 * l1 = l2 * l2) ↔
        0 < x ∨ x * x + y * y + l1 * l1 = l2 * l2 := by
      rcases lt_or_gt_of_ne hx with hneg | hpos
      · rw [or_iff_right (not_lt.mpr hneg.le), or_iff_right (not_lt.mpr hneg.le),
          and_iff_right hneg]
      · exact iff_of_true (Or.inl hpos) (Or.inl hpos)
    have hsolved : ∀ hreach : TwoLink.Reaches l1 l2 (x * x + y * y),
        solveTheta1 (realMaths toInt) x y l1 l2 =
          some (Real.arctan (y / x) - TwoLink.shoulderAngle l1 l2 √(x * x + y * y)) := by
      intro hreach
      rw [htheta1, (gamma_eq_some_iff toInt h1 h2 hr _).mpr ⟨hreach, rfl⟩, Option.map_some]
    rw [hside]
    constructor
    · intro hsolves
      obtain ⟨t1, -, ht1, -⟩ := id hsolves
      rw [htheta1] at ht1
      obtain ⟨g, hg, -⟩ := Option.map_eq_some_iff.mp ht1
      obtain ⟨hreach, -⟩ := (gamma_eq_some_iff toInt h1 h2 hr g).mp hg
      rw [hsolved hreach, second_link_iff toInt h2, elbow_distance_iff h1 h2 hx hreach rfl] at hsolves
      exact ⟨hreach, hsolves⟩
    · rintro ⟨hreach, hsolves⟩
      rw [hsolved hreach, second_link_iff toInt h2, elbow_distance_iff h1 h2 hx hreach rfl]
      exact hsolves

end Quotients

/-! ## The targets of a run -/

section Targets
variable (toInt : Double ℝ → ℤ)

/-- The target that an iteration places and solves, and the arm that its angles stand for. -/
theorem loop_fields (s : Vars ℝ) (sh : Shared Axis) :
    let s' := loop (realMaths toInt) s sh
    s'.XEPOS = place (s'.input .x) ∧ s'.YEPOS = place (s'.input .y) ∧
      s'.theta1 = solveTheta1 (realMaths toInt) s'.XEPOS s'.YEPOS length1 length2 ∧
      s'.theta2 = solveTheta2 (realMaths toInt) s'.XEPOS s'.YEPOS length1 s'.theta1 := by
  unfold loop command
  dsimp only
  split_ifs <;> exact ⟨rfl, rfl, rfl, rfl⟩

/-- After every iteration of every run, the target is where the widths in effect place it, and the
angles lead the arm to it exactly when it is within reach, to the right of the shoulder or at the
distance of a right angle at it, and not to the left of the elbow. -/
theorem quotients_end_iff (servos : Servo → BitVec 16) (inp : ℕ → Shared Axis) (n : ℕ) :
    let s := varsAt (realMaths toInt) servos inp (n + 1)
    let x : ℝ := (place (s.input .x) : ℤ)
    let y : ℝ := (place (s.input .y) : ℤ)
    s.XEPOS = place (s.input .x) ∧ s.YEPOS = place (s.input .y) ∧
      (Solves length1 length2 x y s.theta1 s.theta2 ↔
        TwoLink.Reaches (length1 : ℝ) length2 (x * x + y * y) ∧
          (0 < x ∨ x < 0 ∧ x * x + y * y + (length1 : ℝ) * length1 = (length2 : ℝ) * length2) ∧
          length1 * Real.cos (Real.arctan (y / x) -
            TwoLink.shoulderAngle length1 length2 √(x * x + y * y)) ≤ x) := by
  intro s x y
  obtain ⟨hx, hy, htheta1, htheta2⟩ :=
    loop_fields toInt (varsAt (realMaths toInt) servos inp n) (inp n)
  change s.XEPOS = place (s.input .x) at hx
  change s.YEPOS = place (s.input .y) at hy
  change s.theta1 = solveTheta1 (realMaths toInt) s.XEPOS s.YEPOS length1 length2 at htheta1
  change s.theta2 = solveTheta2 (realMaths toInt) s.XEPOS s.YEPOS length1 s.theta1 at htheta2
  refine ⟨hx, hy, ?_⟩
  rw [htheta2, htheta1, hx, hy]
  exact solves_iff toInt (by norm_num [length1]) (by norm_num [length2])

end Targets

end TitanRover.Stick.TwoDOF
