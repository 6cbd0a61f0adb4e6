import Mathlib

/-! # A free-running counter of `w` bits

A processor reads the true time `t` as `t mod 2 ^ w`. The difference of two readings is exact as
long as the time between them fits the width it is kept in, however often the counter wrapped. -/
namespace Foundations.Clock
set_option autoImplicit false

def read (w t : ℕ) : BitVec w := BitVec.ofNat w t

theorem elapsed_toNat (w : ℕ) {s t : ℕ} (h : s ≤ t) :
    (read w t - read w s).toNat = (t - s) % 2 ^ w := by
  have hs : s % 2 ^ w < 2 ^ w := Nat.mod_lt _ (Nat.two_pow_pos w)
  have hdiv : 2 ^ w * (s / 2 ^ w) + s % 2 ^ w = s := Nat.div_add_mod s (2 ^ w)
  have hsum : 2 ^ w - s % 2 ^ w + t = (t - s) + 2 ^ w * (s / 2 ^ w + 1) := by
    rw [Nat.mul_add]
    omega
  rw [read, read, BitVec.toNat_sub, BitVec.toNat_ofNat, BitVec.toNat_ofNat,
    Nat.add_mod_mod, hsum, Nat.add_mul_mod_self_left]

theorem elapsed_le (w : ℕ) {s t : ℕ} (h : s ≤ t) : (read w t - read w s).toNat ≤ t - s := by
  rw [elapsed_toNat w h]
  exact Nat.mod_le _ _

theorem elapsed_exact (w : ℕ) {s t : ℕ} (h : s ≤ t) (hw : t - s < 2 ^ w) :
    (read w t - read w s).toNat = t - s := by
  rw [elapsed_toNat w h, Nat.mod_eq_of_lt hw]

/-- A difference kept in fewer bits is exact when the elapsed time fits them. -/
theorem elapsed_truncated {w v : ℕ} (hvw : v ≤ w) {s t : ℕ} (h : s ≤ t) (hv : t - s < 2 ^ v) :
    ((read w t - read w s).setWidth v).toNat = t - s := by
  have hw : t - s < 2 ^ w := Nat.lt_of_lt_of_le hv (Nat.pow_le_pow_right (by decide) hvw)
  rw [BitVec.toNat_setWidth, elapsed_exact w h hw, Nat.mod_eq_of_lt hv]

theorem read_ne (w : ℕ) {s t : ℕ} (h : s < t) (hw : t - s < 2 ^ w) : read w t ≠ read w s := by
  intro he
  have hd := elapsed_exact w (Nat.le_of_lt h) hw
  rw [he, BitVec.sub_self, BitVec.toNat_zero] at hd
  omega

end Foundations.Clock
