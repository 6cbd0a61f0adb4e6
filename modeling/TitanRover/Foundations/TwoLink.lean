import Mathlib

/-! # Two links and a joint

A target at squared distance `d` from the shoulder is within reach of an arm of two links exactly
when the law of cosines gives its elbow angle a cosine in `[-1, 1]`, and exactly when it gives the
angle at the shoulder one. The joint angles that the law gives lead the arm to the target. With
principal arctangents the angle at the shoulder is a difference of two, which leaves the turn from
`-π` to `π` exactly for the targets that the second link reaches from below with the first one
pointing backwards. -/
namespace Foundations.TwoLink
set_option autoImplicit false

section Reach
variable {R : Type*} [Field R] [LinearOrder R] [IsStrictOrderedRing R]

/-- The squared distance `d` lies between those of the folded and of the stretched arm. -/
def Reaches (l1 l2 d : R) : Prop := (l1 - l2) * (l1 - l2) ≤ d ∧ d ≤ (l1 + l2) * (l1 + l2)

theorem one_sub_mul_self_nonneg_iff (c : R) : 0 ≤ 1 - c * c ↔ -1 ≤ c ∧ c ≤ 1 := by
  rw [sub_nonneg, ← abs_le, ← abs_mul_abs_self, ← sq, sq_le_one_iff₀ (abs_nonneg c)]

theorem cosine_range_iff {l1 l2 : R} (h1 : 0 < l1) (h2 : 0 < l2) (d : R) :
    (-1 ≤ (d - l1 * l1 - l2 * l2) / (((2 : ℤ) : R) * l1 * l2) ∧
      (d - l1 * l1 - l2 * l2) / (((2 : ℤ) : R) * l1 * l2) ≤ 1) ↔ Reaches l1 l2 d := by
  have hpos : 0 < ((2 : ℤ) : R) * l1 * l2 := by positivity
  rw [le_div_iff₀ hpos, div_le_one hpos, Reaches]
  push_cast
  constructor
  · rintro ⟨hlow, hhigh⟩
    exact ⟨by linarith, by linarith⟩
  · rintro ⟨hlow, hhigh⟩
    exact ⟨by linarith, by linarith⟩

/-! ## The two angles -/

theorem reaches_mul_self_iff {a b c : R} (hab : 0 ≤ a + b) (hc : 0 ≤ c) :
    Reaches a b (c * c) ↔ |a - b| ≤ c ∧ c ≤ a + b := by
  rw [Reaches, ← abs_le_iff_mul_self_le, abs_of_nonneg hc, mul_self_le_mul_self_iff hc hab]

/-- Whether three lengths make a triangle is symmetric in them. -/
theorem reaches_iff_triangle {a b c : R} (ha : 0 ≤ a) (hb : 0 ≤ b) (hc : 0 ≤ c) :
    Reaches a b (c * c) ↔ a ≤ b + c ∧ b ≤ a + c ∧ c ≤ a + b := by
  rw [reaches_mul_self_iff (add_nonneg ha hb) hc, abs_sub_le_iff, sub_le_iff_le_add',
    sub_le_iff_le_add', and_assoc]

/-- The cosine of the angle at the shoulder, for a target at distance `r`. -/
theorem shoulder_range_iff {l1 l2 r : R} (h1 : 0 < l1) (h2 : 0 < l2) (hr : 0 < r) :
    (-1 ≤ (r * r + l1 * l1 - l2 * l2) / (((2 : ℤ) : R) * l1 * r) ∧
      (r * r + l1 * l1 - l2 * l2) / (((2 : ℤ) : R) * l1 * r) ≤ 1) ↔ Reaches l1 l2 (r * r) := by
  have hneg : (r * r + l1 * l1 - l2 * l2) / (((2 : ℤ) : R) * l1 * r) =
      -((l2 * l2 - l1 * l1 - r * r) / (((2 : ℤ) : R) * l1 * r)) := by
    rw [← neg_div]
    congr 1
    ring
  rw [hneg, neg_le_neg_iff, neg_le, and_comm, cosine_range_iff h1 hr,
    reaches_iff_triangle h1.le hr.le h2.le, reaches_iff_triangle h1.le h2.le hr.le, add_comm r l2]
  exact and_congr_right fun _ => and_comm

/-- The cosine of the inner angle at the elbow. -/
theorem elbow_range_iff {l1 l2 : R} (h1 : 0 < l1) (h2 : 0 < l2) (d : R) :
    (-1 ≤ (l1 * l1 + l2 * l2 - d) / (((2 : ℤ) : R) * l1 * l2) ∧
      (l1 * l1 + l2 * l2 - d) / (((2 : ℤ) : R) * l1 * l2) ≤ 1) ↔ Reaches l1 l2 d := by
  have hneg : (l1 * l1 + l2 * l2 - d) / (((2 : ℤ) : R) * l1 * l2) =
      -((d - l1 * l1 - l2 * l2) / (((2 : ℤ) : R) * l1 * l2)) := by
    rw [← neg_div]
    congr 1
    ring
  rw [hneg, neg_le_neg_iff, neg_le, and_comm, cosine_range_iff h1 h2]

theorem not_reaches_zero {l1 l2 : R} (hne : l1 ≠ l2) : ¬ Reaches l1 l2 0 := by
  rintro ⟨hfolded, -⟩
  exact absurd hfolded (not_le.mpr (mul_self_pos.mpr (sub_ne_zero.mpr hne)))

end Reach

/-! ## The pose -/

section Pose

/-- An arctangent of two arguments gives the angle of the point `(a, b)`. -/
def IsAtan2 (atan2 : ℝ → ℝ → ℝ) : Prop :=
  ∀ b a, √(a * a + b * b) * Real.cos (atan2 b a) = a ∧ √(a * a + b * b) * Real.sin (atan2 b a) = b

/-- The end of the arm with the joints at `t1` and `t2`. -/
structure EndsAt (l1 l2 t1 t2 x y : ℝ) : Prop where
  x : l1 * Real.cos t1 + l2 * Real.cos (t1 + t2) = x
  y : l1 * Real.sin t1 + l2 * Real.sin (t1 + t2) = y

/-- The shoulder is turned from the target's direction `α` by the angle `β` that the bent arm
itself makes. -/
theorem endsAt_of_angles {l1 l2 r α β γ x y : ℝ} (hx : r * Real.cos α = x) (hy : r * Real.sin α = y)
    (hk1 : r * Real.cos β = l1 + l2 * Real.cos γ) (hk2 : r * Real.sin β = l2 * Real.sin γ) :
    EndsAt l1 l2 (α - β) γ x y := by
  have hα : α = β + (α - β) := by ring
  constructor
  · calc l1 * Real.cos (α - β) + l2 * Real.cos (α - β + γ)
        = (l1 + l2 * Real.cos γ) * Real.cos (α - β) -
            l2 * Real.sin γ * Real.sin (α - β) := by
          rw [Real.cos_add]
          ring
      _ = r * Real.cos (β + (α - β)) := by
          rw [← hk1, ← hk2, Real.cos_add]
          ring
      _ = x := by rw [← hα, hx]
  · calc l1 * Real.sin (α - β) + l2 * Real.sin (α - β + γ)
        = (l1 + l2 * Real.cos γ) * Real.sin (α - β) +
            l2 * Real.sin γ * Real.cos (α - β) := by
          rw [Real.sin_add]
          ring
      _ = r * Real.sin (β + (α - β)) := by
          rw [← hk1, ← hk2, Real.sin_add]
          ring
      _ = y := by rw [← hα, hy]

/-- The bent arm by itself reaches as far as the target is. -/
theorem bent_distance {l1 l2 c s x y : ℝ}
    (hc : 2 * l1 * l2 * c = x * x + y * y - l1 * l1 - l2 * l2) (hs : c * c + s * s = 1) :
    (l1 + l2 * c) * (l1 + l2 * c) + l2 * s * (l2 * s) = x * x + y * y := by
  linear_combination hc + l2 * l2 * hs

/-- The angles computed from the cosine `c` of the elbow and its sine `s`. -/
theorem endsAt_of_cosine {atan2 : ℝ → ℝ → ℝ} (h : IsAtan2 atan2) {l1 l2 c s x y : ℝ}
    (hc : 2 * l1 * l2 * c = x * x + y * y - l1 * l1 - l2 * l2) (hs : c * c + s * s = 1) :
    EndsAt l1 l2 (atan2 y x - atan2 (l2 * s) (l1 + l2 * c)) (atan2 s c) x y := by
  obtain ⟨hγc, hγs⟩ := h s c
  rw [hs, Real.sqrt_one, one_mul] at hγc hγs
  obtain ⟨hx, hy⟩ := h y x
  obtain ⟨hk1, hk2⟩ := h (l2 * s) (l1 + l2 * c)
  rw [bent_distance hc hs] at hk1 hk2
  exact endsAt_of_angles hx hy (by rw [hk1, hγc]) (by rw [hk2, hγs])

theorem EndsAt.unique {l1 l2 t1 t2 x y x' y' : ℝ} (h : EndsAt l1 l2 t1 t2 x y)
    (h' : EndsAt l1 l2 t1 t2 x' y') : x = x' ∧ y = y' :=
  ⟨h.x.symm.trans h'.x, h.y.symm.trans h'.y⟩

/-! ## The distance of two ends -/

noncomputable def distance (x y x' y' : ℝ) : ℝ := √((x' - x) * (x' - x) + (y' - y) * (y' - y))

theorem distance_eq_norm (x y x' y' : ℝ) : distance x y x' y' = ‖(⟨x' - x, y' - y⟩ : ℂ)‖ := by
  rw [Complex.norm_def, Complex.normSq_mk]
  rfl

/-- Two directions are no further apart than their angles. -/
theorem chord_le (a b : ℝ) :
    ‖(⟨Real.cos a - Real.cos b, Real.sin a - Real.sin b⟩ : ℂ)‖ ≤ |a - b| := by
  have hcos := Real.one_sub_sq_div_two_le_cos (x := a - b)
  have ha := Real.sin_sq_add_cos_sq a
  have hb := Real.sin_sq_add_cos_sq b
  rw [Real.cos_sub] at hcos
  rw [Complex.norm_def, Complex.normSq_mk]
  refine Real.sqrt_le_iff.mpr ⟨abs_nonneg _, ?_⟩
  rw [sq_abs]
  linarith

/-- Joints turned to within `d` of a pose end near where the pose does. -/
theorem EndsAt.near {l1 l2 t1 t2 t1' t2' x y x' y' d : ℝ} (h : EndsAt l1 l2 t1 t2 x y)
    (h' : EndsAt l1 l2 t1' t2' x' y') (h1 : 0 ≤ l1) (h2 : 0 ≤ l2) (ht1 : |t1' - t1| ≤ d)
    (ht2 : |t2' - t2| ≤ d) : distance x y x' y' ≤ (l1 + 2 * l2) * d := by
  have hsum : |t1' + t2' - (t1 + t2)| ≤ 2 * d := by
    have hsplit : t1' + t2' - (t1 + t2) = t1' - t1 + (t2' - t2) := by ring
    rw [hsplit, two_mul]
    exact (abs_add_le _ _).trans (add_le_add ht1 ht2)
  have hlinks : (⟨x' - x, y' - y⟩ : ℂ) =
      (l1 : ℂ) * ⟨Real.cos t1' - Real.cos t1, Real.sin t1' - Real.sin t1⟩ +
        (l2 : ℂ) * ⟨Real.cos (t1' + t2') - Real.cos (t1 + t2),
          Real.sin (t1' + t2') - Real.sin (t1 + t2)⟩ := by
    rw [← h.x, ← h.y, ← h'.x, ← h'.y]
    apply Complex.ext
    · simp
      ring
    · simp
      ring
  rw [distance_eq_norm, hlinks]
  refine (norm_add_le _ _).trans ?_
  rw [norm_mul, norm_mul, Complex.norm_of_nonneg h1, Complex.norm_of_nonneg h2]
  calc _ ≤ l1 * d + l2 * (2 * d) :=
        add_le_add (mul_le_mul_of_nonneg_left ((chord_le _ _).trans ht1) h1)
          (mul_le_mul_of_nonneg_left ((chord_le _ _).trans hsum) h2)
    _ = (l1 + 2 * l2) * d := by ring

/-! ## The pose from the triangle -/

/-- The angle between the first link and the line to the target, at distance `r`. -/
noncomputable def shoulderAngle (l1 l2 r : ℝ) : ℝ :=
  Real.arccos ((r * r + l1 * l1 - l2 * l2) / (((2 : ℤ) : ℝ) * l1 * r))

/-- The angle between the links. -/
noncomputable def elbowAngle (l1 l2 r : ℝ) : ℝ :=
  Real.arccos ((l1 * l1 + l2 * l2 - r * r) / (((2 : ℤ) : ℝ) * l1 * l2))

section Triangle
variable {l1 l2 r : ℝ}

theorem cos_shoulderAngle (h1 : 0 < l1) (h2 : 0 < l2) (hr : 0 < r)
    (hreach : Reaches l1 l2 (r * r)) :
    2 * l1 * (r * Real.cos (shoulderAngle l1 l2 r)) = r * r + l1 * l1 - l2 * l2 := by
  obtain ⟨hlow, hhigh⟩ := (shoulder_range_iff h1 h2 hr).mpr hreach
  rw [shoulderAngle, Real.cos_arccos hlow hhigh]
  push_cast
  field_simp

theorem cos_elbowAngle (h1 : 0 < l1) (h2 : 0 < l2) (hreach : Reaches l1 l2 (r * r)) :
    2 * l1 * (l2 * Real.cos (elbowAngle l1 l2 r)) = l1 * l1 + l2 * l2 - r * r := by
  obtain ⟨hlow, hhigh⟩ := (elbow_range_iff h1 h2 (r * r)).mpr hreach
  rw [elbowAngle, Real.cos_arccos hlow hhigh]
  push_cast
  field_simp

/-- The two heights of the triangle over the first link agree. -/
theorem sin_shoulderAngle (h1 : 0 < l1) (h2 : 0 < l2) (hr : 0 < r)
    (hreach : Reaches l1 l2 (r * r)) :
    r * Real.sin (shoulderAngle l1 l2 r) = l2 * Real.sin (elbowAngle l1 l2 r) := by
  have hcos := cos_shoulderAngle h1 h2 hr hreach
  have hcos' := cos_elbowAngle h1 h2 hreach
  have hsum : r * Real.cos (shoulderAngle l1 l2 r) + l2 * Real.cos (elbowAngle l1 l2 r) = l1 := by
    have h : 2 * l1 * (r * Real.cos (shoulderAngle l1 l2 r) +
        l2 * Real.cos (elbowAngle l1 l2 r)) = 2 * l1 * l1 := by
      rw [mul_add, hcos, hcos']
      ring
    exact mul_left_cancel₀ (by positivity) h
  have hsin : 0 ≤ Real.sin (shoulderAngle l1 l2 r) :=
    Real.sin_nonneg_of_nonneg_of_le_pi (Real.arccos_nonneg _) (Real.arccos_le_pi _)
  have hsin' : 0 ≤ Real.sin (elbowAngle l1 l2 r) :=
    Real.sin_nonneg_of_nonneg_of_le_pi (Real.arccos_nonneg _) (Real.arccos_le_pi _)
  have hpyth := Real.sin_sq_add_cos_sq (shoulderAngle l1 l2 r)
  have hpyth' := Real.sin_sq_add_cos_sq (elbowAngle l1 l2 r)
  rw [← mul_self_inj (mul_nonneg hr.le hsin) (mul_nonneg h2.le hsin')]
  linear_combination r * r * hpyth - l2 * l2 * hpyth' - (hcos - hcos') / 2 +
    (l2 * Real.cos (elbowAngle l1 l2 r) - r * Real.cos (shoulderAngle l1 l2 r)) * hsum

/-- Turned from any direction `α` by the angle at the shoulder, the bent arm ends in that
direction, at the distance `r`. -/
theorem endsAt_of_triangle (h1 : 0 < l1) (h2 : 0 < l2) (hr : 0 < r)
    (hreach : Reaches l1 l2 (r * r)) (α : ℝ) :
    EndsAt l1 l2 (α - shoulderAngle l1 l2 r) (Real.pi - elbowAngle l1 l2 r) (r * Real.cos α)
      (r * Real.sin α) := by
  have hcos := cos_shoulderAngle h1 h2 hr hreach
  have hcos' := cos_elbowAngle h1 h2 hreach
  refine endsAt_of_angles rfl rfl ?_ ?_
  · rw [Real.cos_pi_sub]
    have h : 2 * l1 * (r * Real.cos (shoulderAngle l1 l2 r)) =
        2 * l1 * (l1 + l2 * -Real.cos (elbowAngle l1 l2 r)) := by
      linear_combination hcos + hcos'
    exact mul_left_cancel₀ (by positivity) h
  · rw [Real.sin_pi_sub]
    exact sin_shoulderAngle h1 h2 hr hreach

/-- The second link is turned to the target from where the first one ends. -/
theorem endsAt_of_elbow {atan2 : ℝ → ℝ → ℝ} (h : IsAtan2 atan2) (h2 : 0 ≤ l2) {t x y : ℝ}
    (hdist : (x - l1 * Real.cos t) * (x - l1 * Real.cos t) +
      (y - l1 * Real.sin t) * (y - l1 * Real.sin t) = l2 * l2) :
    EndsAt l1 l2 t (atan2 (y - l1 * Real.sin t) (x - l1 * Real.cos t) - t) x y := by
  obtain ⟨hx, hy⟩ := h (y - l1 * Real.sin t) (x - l1 * Real.cos t)
  rw [hdist, Real.sqrt_mul_self h2] at hx hy
  constructor
  · rw [add_sub_cancel, hx, add_sub_cancel]
  · rw [add_sub_cancel, hy, add_sub_cancel]

/-- The first link ends at the distance of the second one from the target. -/
theorem elbow_distance (h1 : 0 < l1) (h2 : 0 < l2) (hr : 0 < r) (hreach : Reaches l1 l2 (r * r))
    {α x y : ℝ} (hx : r * Real.cos α = x) (hy : r * Real.sin α = y) :
    (x - l1 * Real.cos (α - shoulderAngle l1 l2 r)) *
        (x - l1 * Real.cos (α - shoulderAngle l1 l2 r)) +
      (y - l1 * Real.sin (α - shoulderAngle l1 l2 r)) *
        (y - l1 * Real.sin (α - shoulderAngle l1 l2 r)) = l2 * l2 := by
  have hcos := cos_shoulderAngle h1 h2 hr hreach
  have hturn : Real.cos (shoulderAngle l1 l2 r) =
      Real.cos α * Real.cos (α - shoulderAngle l1 l2 r) +
        Real.sin α * Real.sin (α - shoulderAngle l1 l2 r) := by
    rw [← Real.cos_sub]
    congr 1
    ring
  have hpyth := Real.sin_sq_add_cos_sq (α - shoulderAngle l1 l2 r)
  have hpyth' := Real.sin_sq_add_cos_sq α
  rw [hturn] at hcos
  rw [← hx, ← hy]
  linear_combination r * r * hpyth' + l1 * l1 * hpyth - hcos

end Triangle

/-! ## The turn of the shoulder -/

/-- The arctangent is the principal one. -/
def Principal (atan2 : ℝ → ℝ → ℝ) : Prop := ∀ b a, -Real.pi < atan2 b a ∧ atan2 b a ≤ Real.pi

theorem angle_nonneg_iff {r α y : ℝ} (hr : 0 < r) (hα : -Real.pi < α ∧ α ≤ Real.pi)
    (hy : r * Real.sin α = y) : 0 ≤ α ↔ 0 ≤ y := by
  rw [← hy, mul_nonneg_iff_of_pos_left hr]
  constructor
  · exact fun h => Real.sin_nonneg_of_nonneg_of_le_pi h hα.2
  · intro h
    by_contra hneg
    exact absurd (Real.sin_neg_of_neg_of_neg_pi_lt (not_le.mp hneg) hα.1) (not_lt.mpr h)

theorem angle_acute {r β k1 k2 : ℝ} (hr : 0 < r) (hβ : -Real.pi < β ∧ β ≤ Real.pi)
    (hk1 : r * Real.cos β = k1) (hk2 : r * Real.sin β = k2) (h1 : 0 < k1) (h2 : 0 ≤ k2) :
    0 ≤ β ∧ β < Real.pi / 2 := by
  refine ⟨(angle_nonneg_iff hr hβ hk2).mpr h2, ?_⟩
  by_contra hobtuse
  have hcos : Real.cos β ≤ 0 :=
    Real.cos_nonpos_of_pi_div_two_le_of_le (not_lt.mp hobtuse) (by linarith [Real.pi_pos])
  rw [← hk1] at h1
  exact absurd (mul_nonpos_of_nonneg_of_nonpos hr.le hcos) (not_le.mpr h1)

/-- Of two points at the same distance, one right and one below, whether they are less than a half
turn apart. -/
theorem cross_nonneg_iff {x y k1 k2 : ℝ} (h1 : 0 < k1) (h2 : 0 ≤ k2) (hy : y < 0)
    (hsq : k1 * k1 + k2 * k2 = x * x + y * y) : 0 ≤ k2 * x - k1 * y ↔ 0 ≤ k1 + x := by
  have hdown : 0 < k1 * -y := mul_pos h1 (neg_pos.mpr hy)
  by_cases hx : 0 ≤ x
  · have hright := mul_nonneg h2 hx
    exact iff_of_true (by linarith) (by linarith)
  · have hx' : 0 ≤ -x := by linarith
    have hpos : 0 < k1 * k1 + k2 * k2 := add_pos_of_pos_of_nonneg (mul_pos h1 h1) (mul_self_nonneg k2)
    have hprod : k1 * -y * (k1 * -y) - k2 * -x * (k2 * -x) =
        (k1 * k1 - -x * -x) * (k1 * k1 + k2 * k2) := by
      linear_combination (-(k1 * k1)) * hsq
    calc 0 ≤ k2 * x - k1 * y ↔ k2 * -x ≤ k1 * -y := by
          constructor <;> intro h <;> linarith
      _ ↔ k2 * -x * (k2 * -x) ≤ k1 * -y * (k1 * -y) :=
        mul_self_le_mul_self_iff (mul_nonneg h2 hx') hdown.le
      _ ↔ 0 ≤ (k1 * k1 - -x * -x) * (k1 * k1 + k2 * k2) := by rw [← hprod, sub_nonneg]
      _ ↔ -x * -x ≤ k1 * k1 := by rw [mul_nonneg_iff_of_pos_right hpos, sub_nonneg]
      _ ↔ -x ≤ k1 := (mul_self_le_mul_self_iff hx' h1.le).symm
      _ ↔ 0 ≤ k1 + x := neg_le_iff_add_nonneg

/-- A target below the shoulder, seen from the bent arm. -/
theorem neg_pi_le_sub_iff {r α β x y k1 k2 : ℝ} (hr : 0 < r) (hα : -Real.pi < α ∧ α < 0)
    (hβ : 0 ≤ β ∧ β < Real.pi / 2) (hx : r * Real.cos α = x) (hy : r * Real.sin α = y)
    (hk1 : r * Real.cos β = k1) (hk2 : r * Real.sin β = k2) :
    -Real.pi ≤ α - β ↔ 0 ≤ k2 * x - k1 * y := by
  have hpi := Real.pi_pos
  have hcross : r * r * Real.sin (α - β + Real.pi) = k2 * x - k1 * y := by
    rw [Real.sin_add_pi, Real.sin_sub, ← hx, ← hy, ← hk1, ← hk2]
    ring
  rw [← angle_nonneg_iff (mul_pos hr hr) ⟨by linarith, by linarith⟩ hcross, ← neg_le_iff_add_nonneg]

section Turn
variable {atan2 : ℝ → ℝ → ℝ} {l1 l2 c s x y : ℝ}

/-- The angle at the shoulder is within one turn exactly for the targets that are not below it, or
not within `l2` of the first link's end when it points backwards. -/
theorem shoulder_turn_iff (h : IsAtan2 atan2) (hp : Principal atan2) (h2 : 0 < l2) (h12 : l2 < l1)
    (hs0 : 0 ≤ s) (hc : 2 * l1 * l2 * c = x * x + y * y - l1 * l1 - l2 * l2)
    (hs : c * c + s * s = 1) :
    (-Real.pi ≤ atan2 y x - atan2 (l2 * s) (l1 + l2 * c) ∧
      atan2 y x - atan2 (l2 * s) (l1 + l2 * c) ≤ Real.pi) ↔
    0 ≤ y ∨ l2 * l2 ≤ (x + l1) * (x + l1) + y * y := by
  have hpi := Real.pi_pos
  have hbent := bent_distance hc hs
  have hdist : (x + l1) * (x + l1) + y * y - l2 * l2 = 2 * l1 * (l1 + l2 * c + x) := by
    linear_combination (-1 : ℝ) * hc
  have hk1 : 0 < l1 + l2 * c := by
    have hc1 : -1 ≤ c := (abs_le.mp (abs_le_one_iff_mul_self_le_one.mpr
      (by linarith [mul_self_nonneg s]))).1
    linarith [mul_le_mul_of_nonneg_left hc1 h2.le]
  have hk2 : 0 ≤ l2 * s := mul_nonneg h2.le hs0
  obtain ⟨hx, hy⟩ := h y x
  obtain ⟨hβ1, hβ2⟩ := h (l2 * s) (l1 + l2 * c)
  have hα := hp y x
  rw [hbent] at hβ1 hβ2
  have hr : 0 < √(x * x + y * y) := by
    rw [Real.sqrt_pos, ← hbent]
    exact add_pos_of_pos_of_nonneg (mul_pos hk1 hk1) (mul_self_nonneg _)
  have hβ := angle_acute hr (hp (l2 * s) (l1 + l2 * c)) hβ1 hβ2 hk1 hk2
  have hsign := angle_nonneg_iff hr hα hy
  rw [and_iff_left (by linarith)]
  by_cases hup : 0 ≤ y
  · have hα0 := hsign.mpr hup
    exact iff_of_true (by linarith) (Or.inl hup)
  · have hα0 : atan2 y x < 0 := not_le.mp fun h0 => hup (hsign.mp h0)
    rw [or_iff_right hup, neg_pi_le_sub_iff hr ⟨hα.1, hα0⟩ hβ hx hy hβ1 hβ2,
      cross_nonneg_iff hk1 hk2 (not_le.mp hup) hbent, ← sub_nonneg (b := l2 * l2), hdist,
      mul_nonneg_iff_of_pos_left (by linarith)]

end Turn

end Pose

end Foundations.TwoLink
