import Mathlib.Data.List.Range
import Mathlib.Data.Nat.Notation

/-! # Words as bytes

A word of `8 * n` bits as its `n` bytes, and put together from them again. -/
namespace Foundations.Words
set_option autoImplicit false

variable {w : ℕ}

/-- The byte `i` of a word, counted from the lowest. -/
def pointer (v : BitVec w) (i : ℕ) : BitVec 8 := v.extractLsb' (8 * i) 8

/-- The `n` lowest bytes of a word, the highest of them first. -/
def highFirst (v : BitVec w) : ℕ → List (BitVec 8)
  | 0 => []
  | n + 1 => pointer v n :: highFirst v n

@[simp] theorem length_highFirst (v : BitVec w) (n : ℕ) : (highFirst v n).length = n := by
  induction n with
  | zero => rfl
  | succ n ih => rw [highFirst, List.length_cons, ih]

def shiftIn (acc : BitVec w) (x : BitVec 8) : BitVec w := acc <<< 8 ||| x.setWidth w

/-- The word with the given bytes, the highest of them first. -/
def word (w : ℕ) (bytes : List (BitVec 8)) : BitVec w := bytes.foldl shiftIn 0#w

theorem getLsbD_shiftIn (acc : BitVec w) (x : BitVec 8) (i : ℕ) :
    (shiftIn acc x).getLsbD i =
      (decide (i < w) && if i < 8 then x.getLsbD i else acc.getLsbD (i - 8)) := by
  rw [shiftIn, BitVec.getLsbD_or, BitVec.getLsbD_shiftLeft, BitVec.getLsbD_setWidth]
  by_cases h : i < 8
  · simp [h]
  · rw [if_neg h, BitVec.getLsbD_of_ge x i (Nat.le_of_not_lt h)]
    simp [h]

theorem getLsbD_foldl_highFirst (v acc : BitVec w) (n i : ℕ) (hi : i < w) :
    ((highFirst v n).foldl shiftIn acc).getLsbD i =
      if i < 8 * n then v.getLsbD i else acc.getLsbD (i - 8 * n) := by
  induction n generalizing acc with
  | zero => rfl
  | succ n ih =>
    rw [highFirst, List.foldl_cons, ih]
    by_cases hlow : i < 8 * n
    · rw [if_pos hlow, if_pos (by omega)]
    · rw [if_neg hlow, getLsbD_shiftIn, decide_eq_true (by omega), Bool.true_and]
      by_cases hbyte : i - 8 * n < 8
      · rw [if_pos hbyte, if_pos (by omega), pointer, BitVec.getLsbD_extractLsb',
          decide_eq_true hbyte, Bool.true_and, Nat.add_sub_cancel' (Nat.le_of_not_lt hlow)]
      · rw [if_neg hbyte, if_neg (by omega), Nat.sub_sub]
        rfl

theorem word_highFirst (n : ℕ) (hw : w ≤ 8 * n) (v : BitVec w) : word w (highFirst v n) = v := by
  apply BitVec.eq_of_getLsbD_eq
  intro i hi
  rw [word, getLsbD_foldl_highFirst v 0#w n i hi, if_pos (by omega)]

end Foundations.Words
