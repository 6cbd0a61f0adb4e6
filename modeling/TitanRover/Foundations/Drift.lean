import Mathlib.Algebra.Order.Group.Abs
import Mathlib.Data.Nat.Count
import Mathlib.Tactic.Abel

/-! # Drift

A quantity that moves at some moments only, and there by at most `d`, is after `n` of them at most
`n` times `d` away from where it was. -/
namespace Foundations.Drift
set_option autoImplicit false

section Sequences
variable {R : Type*} [AddCommGroup R] [LinearOrder R] [IsOrderedAddMonoid R]
variable (P : ℕ → Prop) [DecidablePred P]

theorem count_sub_succ {m n : ℕ} (h : m ≤ n) :
    Nat.count P (n + 1) - Nat.count P m =
      (Nat.count P n - Nat.count P m) + if P n then 1 else 0 := by
  have hmono := Nat.count_monotone P h
  rw [Nat.count_succ]
  omega

theorem abs_sub_le {x : ℕ → R} {d : R} {m n : ℕ} (hmn : m ≤ n)
    (hmove : ∀ k, m ≤ k → k < n → P k → |x (k + 1) - x k| ≤ d)
    (hstill : ∀ k, m ≤ k → k < n → ¬ P k → x (k + 1) = x k) :
    |x n - x m| ≤ (Nat.count P n - Nat.count P m) • d := by
  induction n, hmn using Nat.le_induction with
  | base => simp
  | succ n hmn ih =>
    have hn := ih (fun k hk hkn => hmove k hk (by omega)) (fun k hk hkn => hstill k hk (by omega))
    rw [count_sub_succ P hmn]
    by_cases hP : P n
    · have hlast := hmove n hmn (by omega) hP
      rw [if_pos hP, add_nsmul, one_nsmul]
      calc |x (n + 1) - x m| = |(x n - x m) + (x (n + 1) - x n)| := by
            congr 1
            abel
        _ ≤ |x n - x m| + |x (n + 1) - x n| := abs_add_le _ _
        _ ≤ (Nat.count P n - Nat.count P m) • d + d := add_le_add hn hlast
    · rw [if_neg hP, add_zero, hstill n hmn (by omega) hP]
      exact hn

end Sequences

end Foundations.Drift
