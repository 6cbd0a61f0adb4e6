import Mathlib.Data.Nat.Notation
import Mathlib.Logic.Basic

/-! # Registers read one bit at a time

A mask of one bit, `BitVec.twoPow w i`, tests, sets and clears that bit of a register. What each of
these does is said bit by bit, so that a register can be read as a set of positions. -/
namespace Foundations.Bits
set_option autoImplicit false

variable {w : ℕ}

theorem test_bit (x : BitVec w) (i : ℕ) : x &&& BitVec.twoPow w i ≠ 0 ↔ x.getLsbD i = true := by
  rw [BitVec.and_twoPow]
  by_cases h : x.getLsbD i = true
  · rw [if_pos h]
    have hi : i < w := BitVec.lt_of_getLsbD h
    refine iff_of_true (fun h0 => ?_) h
    have hbit : (BitVec.twoPow w i).getLsbD i = false := by rw [h0, BitVec.ofNat_eq_ofNat,
      BitVec.getLsbD_zero]
    simp [hi] at hbit
  · rw [if_neg h]
    exact iff_of_false (fun h0 => h0 rfl) h

theorem test_bit' (x : BitVec w) (i : ℕ) : BitVec.twoPow w i &&& x ≠ 0 ↔ x.getLsbD i = true := by
  rw [BitVec.and_comm, test_bit]

theorem set_bit {i : ℕ} (hi : i < w) (x : BitVec w) (j : ℕ) :
    (x ||| BitVec.twoPow w i).getLsbD j = (x.getLsbD j || decide (i = j)) := by
  rw [BitVec.getLsbD_or, BitVec.getLsbD_twoPow, decide_eq_true hi, Bool.true_and]

theorem clear_bit {j : ℕ} (hj : j < w) (x : BitVec w) (i : ℕ) :
    (x &&& ~~~BitVec.twoPow w i).getLsbD j = (x.getLsbD j && !decide (i = j)) := by
  rw [BitVec.getLsbD_and, BitVec.getLsbD_not, BitVec.getLsbD_twoPow, decide_eq_true hj,
    Bool.true_and]
  by_cases hij : i = j
  · subst hij
    simp [hj]
  · simp [hij]

theorem ne_zero_iff (x : BitVec w) : x ≠ 0 ↔ ∃ i, i < w ∧ x.getLsbD i = true := by
  rw [BitVec.ofNat_eq_ofNat, ne_eq, BitVec.zero_iff_eq_false]
  constructor
  · intro h
    obtain ⟨i, hi⟩ := not_forall.mp h
    rw [Bool.not_eq_false] at hi
    exact ⟨i, BitVec.lt_of_getLsbD hi, hi⟩
  · rintro ⟨i, -, hi⟩ h
    exact absurd (h i) (by rw [hi]; decide)

end Foundations.Bits
