import Mathlib.Algebra.Order.Group.Abs
import Mathlib.Algebra.Order.Group.Basic
import Mathlib.Algebra.Order.Group.Defs
import Mathlib.Algebra.Order.Group.Int
import Mathlib.Logic.Function.Iterate
import Mathlib.Order.Interval.Set.UnorderedInterval
import Mathlib.Tactic.Abel

/-! # Approach by steps of one size

A position is moved towards a target by steps of a fixed size `δ`, without a shorter last one. It
then stays a whole number of steps from its start, so that it settles at the target exactly when the
target is a whole number of steps away. -/
namespace Foundations.Approach
set_option autoImplicit false

/-- Repeated `f` leads from `p` to `target` without passing it, and holds it there. -/
structure Settles {R : Type*} [Lattice R] (f : R → R) (p target : R) : Prop where
  between : ∀ n, f^[n] p ∈ Set.uIcc p target
  reaches : ∃ n, ∀ m, n ≤ m → f^[m] p = target

section Steps
variable {R : Type*} [AddCommGroup R] [LinearOrder R]

def step (δ target p : R) : R :=
  if target > p then p + δ else if target < p then p - δ else p

theorem step_up {δ target p : R} (h : p < target) : step δ target p = p + δ := if_pos h

theorem step_reached (δ target : R) : step δ target target = target := by
  rw [step, if_neg (lt_irrefl _), if_neg (lt_irrefl _)]

/-- However often it moves, the position is a whole number of steps from its start. -/
theorem iterate_steps (δ target p : R) (n : ℕ) : ∃ k : ℤ, (step δ target)^[n] p = p + k • δ := by
  induction n with
  | zero => exact ⟨0, by rw [zero_zsmul, add_zero]; rfl⟩
  | succ n ih =>
    obtain ⟨k, hk⟩ := ih
    rw [Function.iterate_succ_apply', hk, step]
    split_ifs
    · exact ⟨k + 1, by rw [add_zsmul, one_zsmul, add_assoc]⟩
    · exact ⟨k - 1, by rw [sub_zsmul, one_zsmul, add_sub_assoc, sub_eq_add_neg]⟩
    · exact ⟨k, rfl⟩

theorem steps_of_reached {δ target p : R} {n : ℕ} (h : (step δ target)^[n] p = target) :
    ∃ k : ℤ, target - p = k • δ := by
  obtain ⟨k, hk⟩ := iterate_steps δ target p n
  rw [h] at hk
  exact ⟨k, sub_eq_iff_eq_add'.mpr hk⟩

variable [IsOrderedAddMonoid R] {δ target p : R}

/-- The way down is the mirror image of the way up. -/
theorem step_neg (δ target p : R) : step δ (-target) (-p) = -step δ target p := by
  simp only [step, gt_iff_lt, neg_lt_neg_iff]
  rcases lt_trichotomy p target with h | h | h
  · rw [if_neg h.not_gt, if_pos h, if_pos h, neg_add']
  · rw [h]
    simp only [lt_irrefl, if_false]
  · rw [if_pos h, if_neg h.not_gt, if_pos h, neg_sub', sub_neg_eq_add]

theorem iterate_neg (δ target p : R) (n : ℕ) :
    (step δ (-target))^[n] (-p) = -(step δ target)^[n] p := by
  induction n with
  | zero => rfl
  | succ n ih => rw [Function.iterate_succ_apply', Function.iterate_succ_apply', ih, step_neg]

theorem settles_neg (h : Settles (step δ target) p target) :
    Settles (step δ (-target)) (-p) (-target) := by
  obtain ⟨n, hn⟩ := h.reaches
  refine ⟨fun m => ?_, n, fun m hm => ?_⟩
  · rw [iterate_neg, Set.mem_uIcc]
    rcases Set.mem_uIcc.mp (h.between m) with ⟨hlow, hhigh⟩ | ⟨hlow, hhigh⟩
    · exact Or.inr ⟨neg_le_neg hhigh, neg_le_neg hlow⟩
    · exact Or.inl ⟨neg_le_neg hhigh, neg_le_neg hlow⟩
  · rw [iterate_neg, hn m hm]

/-- A target `k` steps up is reached with the `k`-th of them. -/
theorem iterate_up (hδ : 0 < δ) (p : R) (k n : ℕ) :
    (step δ (p + k • δ))^[n] p = p + min n k • δ := by
  induction n with
  | zero => rw [Nat.zero_min, zero_nsmul, add_zero, Function.iterate_zero_apply]
  | succ n ih =>
    rw [Function.iterate_succ_apply', ih]
    rcases lt_or_ge n k with h | h
    · have hlt : p + n • δ < p + k • δ := add_lt_add_right (nsmul_lt_nsmul_left hδ h) p
      rw [min_eq_left h.le, min_eq_left (Nat.succ_le_of_lt h), step_up hlt, succ_nsmul, add_assoc]
    · rw [min_eq_right h, min_eq_right (Nat.le_succ_of_le h), step_reached]

theorem settles_up (hδ : 0 < δ) (p : R) (k : ℕ) :
    Settles (step δ (p + k • δ)) p (p + k • δ) := by
  refine ⟨fun n => ?_, k, fun m hm => ?_⟩
  · rw [iterate_up hδ, Set.mem_uIcc]
    exact Or.inl ⟨le_add_of_nonneg_right (nsmul_nonneg hδ.le _),
      add_le_add_right (nsmul_le_nsmul_left hδ.le (min_le_right n k)) p⟩
  · rw [iterate_up hδ, min_eq_right hm]

/-- A target that a band holds with a step to spare keeps the position in the band. -/
theorem step_near {c d : R} (hδ : 0 ≤ δ) (htarget : |target - c| + δ ≤ d) (hp : |p - c| ≤ d) :
    |step δ target p - c| ≤ d := by
  obtain ⟨htlow, hthigh⟩ := abs_le.mp (le_sub_iff_add_le.mpr htarget)
  obtain ⟨hlow, hhigh⟩ := abs_le.mp hp
  rw [neg_sub', sub_neg_eq_add] at htlow
  unfold step
  rw [abs_le]
  split_ifs with hup hdown
  · constructor
    · calc -d ≤ p - c := hlow
        _ ≤ p + δ - c := sub_le_sub_right (le_add_of_nonneg_right hδ) c
    · calc p + δ - c ≤ target + δ - c := sub_le_sub_right (add_le_add_left hup.le δ) c
        _ = target - c + δ := by abel
        _ ≤ d := le_sub_iff_add_le.mp hthigh
  · constructor
    · calc -d ≤ target - c - δ := le_sub_iff_add_le.mpr htlow
        _ = target - δ - c := by abel
        _ ≤ p - δ - c := sub_le_sub_right (sub_le_sub_right hdown.le δ) c
    · exact (sub_le_sub_right (sub_le_self p hδ) c).trans hhigh
  · exact ⟨hlow, hhigh⟩

theorem abs_step_sub (h : δ ≤ |p - target|) (hne : p ≠ target) :
    |step δ target p - target| = |p - target| - δ := by
  rcases hne.lt_or_gt with hup | hdown
  · rw [abs_of_neg (sub_neg.mpr hup), neg_sub] at h ⊢
    have hbelow : p + δ - target ≤ 0 := sub_nonpos.mpr (by rwa [← le_sub_iff_add_le'])
    rw [step_up hup, abs_of_nonpos hbelow]
    abel
  · rw [abs_of_pos (sub_pos.mpr hdown)] at h ⊢
    have habove : 0 ≤ p - δ - target := by
      rw [sub_right_comm]
      exact sub_nonneg.mpr h
    rw [step, if_neg hdown.not_gt, if_pos hdown, abs_of_nonneg habove]
    abel

/-- A position less than a step away is moved past the target, and stays less than a step away. -/
theorem step_close (hδ : 0 < δ) (h : |p - target| < δ) : |step δ target p - target| < δ := by
  obtain ⟨hlow, hhigh⟩ := abs_lt.mp h
  rw [abs_lt]
  rcases lt_trichotomy p target with hup | rfl | hdown
  · rw [step_up hup, add_sub_right_comm]
    exact ⟨lt_add_of_lt_of_pos hlow hδ, add_lt_of_neg_left δ (sub_neg.mpr hup)⟩
  · rw [step_reached, sub_self]
    exact ⟨neg_neg_of_pos hδ, hδ⟩
  · rw [step, if_neg hdown.not_gt, if_pos hdown, sub_right_comm]
    exact ⟨neg_lt_sub_iff_lt_add.mpr (lt_add_of_pos_right δ (sub_pos.mpr hdown)),
      (sub_lt_self _ hδ).trans hhigh⟩

theorem iterate_close (hδ : 0 < δ) (h : |p - target| < δ) (n : ℕ) :
    |(step δ target)^[n] p - target| < δ := by
  induction n with
  | zero => exact h
  | succ n ih =>
    rw [Function.iterate_succ_apply']
    exact step_close hδ ih

/-- A position less than `k + 1` steps away is less than one step away from the `k`-th step on. -/
theorem iterate_arrives (hδ : 0 < δ) {k : ℕ} (h : |p - target| < (k + 1) • δ) {n : ℕ}
    (hn : k ≤ n) : |(step δ target)^[n] p - target| < δ := by
  induction k generalizing p n with
  | zero =>
    rw [zero_add, one_nsmul] at h
    exact iterate_close hδ h n
  | succ k ih =>
    by_cases hclose : |p - target| < δ
    · exact iterate_close hδ hclose n
    · have hfar := not_lt.mp hclose
      have hne : p ≠ target := by
        rintro rfl
        rw [sub_self, abs_zero] at hfar
        exact absurd hδ hfar.not_gt
      obtain ⟨n, rfl⟩ := Nat.exists_eq_add_of_le' (Nat.one_le_of_lt hn)
      rw [Function.iterate_succ_apply]
      apply ih
      · rw [abs_step_sub hfar hne]
        rw [succ_nsmul] at h
        exact sub_lt_iff_lt_add.mpr h
      · exact Nat.le_of_succ_le_succ hn

theorem settles_iff (hδ : 0 < δ) :
    Settles (step δ target) p target ↔ ∃ k : ℤ, target - p = k • δ := by
  constructor
  · intro h
    obtain ⟨n, hn⟩ := h.reaches
    exact steps_of_reached (hn n (le_refl n))
  · rintro ⟨k, hk⟩
    rw [sub_eq_iff_eq_add'] at hk
    obtain ⟨j, rfl | rfl⟩ := k.eq_nat_or_neg
    · rw [hk, natCast_zsmul]
      exact settles_up hδ p j
    · have hneg : -target = -p + j • δ := by
        rw [hk, neg_zsmul, natCast_zsmul]
        abel
      have h := settles_neg (hneg ▸ settles_up hδ (-p) j)
      rwa [neg_neg, neg_neg] at h

end Steps

end Foundations.Approach
