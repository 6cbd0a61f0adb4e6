import Mathlib.Algebra.Order.Group.Nat
import Mathlib.Data.List.Basic
import Mathlib.Data.List.Range
import Mathlib.Logic.Function.Basic

/-! # A ring of elements

`length` elements lie in a storage of `cap` places, one after the other from `position` on and from
the last place on to the first. The lemmas say what this list becomes when an element is written
after the last or before the first one, or when one of the two is given up. -/
namespace Foundations.Ring
set_option autoImplicit false

variable {α : Type*} (data : ℕ → α) (cap : ℕ)

def contents (position length : ℕ) : List α :=
  (List.range length).map fun k => data ((position + k) % cap)

@[simp] theorem length_contents (position length : ℕ) :
    (contents data cap position length).length = length := by
  simp [contents]

theorem getElem?_contents {position length k : ℕ} (hk : k < length) :
    (contents data cap position length)[k]? = some (data ((position + k) % cap)) := by
  simp [contents, hk]

/-- The last element. -/
theorem contents_back (position length : ℕ) :
    contents data cap position (length + 1) =
      contents data cap position length ++ [data ((position + length) % cap)] := by
  rw [contents, List.range_succ, List.map_append]
  rfl

variable {cap}

/-- The first element. -/
theorem contents_front {position : ℕ} (hp : position < cap) (length : ℕ) :
    contents data cap position (length + 1) =
      data position :: contents data cap ((position + 1) % cap) length := by
  rw [contents, List.range_succ_eq_map, List.map_cons, List.map_map, Nat.add_zero,
    Nat.mod_eq_of_lt hp, contents]
  congr 1
  apply List.map_congr_left
  intro k _
  rw [Function.comp_apply, Nat.mod_add_mod, Nat.add_right_comm, Nat.add_assoc]

/-- Places at different distances below the capacity are different. -/
theorem place_ne (position : ℕ) {j k : ℕ} (hj : j < k) (hk : k < cap) :
    (position + j) % cap ≠ (position + k) % cap := by
  intro h
  have hdvd : cap ∣ position + k - (position + j) :=
    Nat.dvd_of_mod_eq_zero (Nat.sub_mod_eq_zero_of_mod_eq h.symm)
  exact absurd (Nat.le_of_dvd (by omega) hdvd) (by omega)

/-- A place that no element has may be overwritten. -/
theorem contents_update {position length k : ℕ} (hk : length ≤ k) (hcap : k < cap) (x : α) :
    contents (Function.update data ((position + k) % cap) x) cap position length =
      contents data cap position length := by
  apply List.map_congr_left
  intro j hj
  have hne := place_ne position ((List.mem_range.mp hj).trans_le hk) hcap
  rw [Function.update_of_ne hne]

theorem contents_push (position : ℕ) {length : ℕ} (hl : length < cap) (x : α) :
    contents (Function.update data ((position + length) % cap) x) cap position (length + 1) =
      contents data cap position length ++ [x] := by
  rw [contents_back, contents_update data (le_refl length) hl, Function.update_self]

/-- `before` is the place before `position`. -/
theorem contents_pushFront {position before length : ℕ} (hb : before < cap)
    (hp : (before + 1) % cap = position) (hl : length < cap) (x : α) :
    contents (Function.update data before x) cap before (length + 1) =
      x :: contents data cap position length := by
  rw [contents_front _ hb, hp, Function.update_self]
  congr 1
  apply List.map_congr_left
  intro j hj
  have hj' := List.mem_range.mp hj
  have hne : (position + j) % cap ≠ before := by
    have hplace : (position + j) % cap = (before + (j + 1)) % cap := by
      rw [← hp, Nat.mod_add_mod, Nat.add_assoc, Nat.add_comm 1 j]
    have hzero : (before + 0) % cap = before := Nat.mod_eq_of_lt hb
    have hapart := place_ne before (Nat.succ_pos j) (by omega : j + 1 < cap)
    rw [hzero] at hapart
    rw [hplace]
    exact hapart.symm
  rw [Function.update_of_ne hne]

end Foundations.Ring
