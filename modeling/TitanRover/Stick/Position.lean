import TitanRover.Stick.Titan3DOF

/-! # The stick position of `Titan16_3DOF.ino`

Every iteration maps the widths to the position it solves, but scrubs them only when an `x` pulse
came with it. From the first pulses on the position is in range exactly when no `y` pulse out of
range is consumed alone. -/
namespace TitanRover.Stick.Titan3DOF
open TitanRover.Arduino Foundations Foundations.Run
set_option autoImplicit false

/-! ## One iteration -/

/-- The coordinates handed to the solvers. -/
def PositionInRange {R : Type*} (s : Vars R) : Prop :=
  (0 ≤ s.XPOS ∧ s.XPOS ≤ 2000) ∧ 0 ≤ s.YPOS ∧ s.YPOS ≤ 2000

theorem map_position (w : BitVec 16) :
    0 ≤ Arduino.map w.toNat 1000 2000 0 2000 ∧ Arduino.map w.toNat 1000 2000 0 2000 ≤ 2000 ↔
      WidthInRange w := by
  have hmap : Arduino.map w.toNat 1000 2000 0 2000 = 2 * (w.toNat - 1000) := by
    have hprod : ((w.toNat : ℤ) - 1000) * (2000 - 0) = 2 * (w.toNat - 1000) * (2000 - 1000) := by
      ring
    rw [Arduino.map, hprod, Int.mul_tdiv_cancel _ (by decide), add_zero]
  rw [hmap, WidthInRange]
  omega

section Iteration
variable {R : Type*}

/-- The mask of the scrub's test is the flag of the `x` channel alone. -/
theorem received_input (s : Vars R) (sh : Shared Axis) (a : Axis) :
    (received s sh).input a =
      if flagsInEffect s.toStatics sh &&& xCoordFlag ≠ 0 then
        scrubWidth (inEffect Axis.flag s.toStatics sh a)
      else inEffect Axis.flag s.toStatics sh a := by
  have hmask : logicalOr xCoordFlag yCoordFlag = xCoordFlag := by decide
  have h := receive_eq Axis.flag (logicalOr xCoordFlag yCoordFlag) s.toStatics sh a
  rw [hmask] at h
  exact h

theorem received_scrubbed (s : Vars R) {sh : Shared Axis} (h : Consumes Axis.flag .x sh) (a : Axis) :
    WidthInRange ((received s sh).input a) := by
  have hflags : flagsInEffect s.toStatics sh &&& xCoordFlag ≠ 0 := by
    rw [flagsInEffect_of_consumes Axis.flag h]
    exact h
  rw [received_input, if_pos hflags]
  exact scrubWidth_range _

theorem received_inRange {s : Vars R} {sh : Shared Axis} {a : Axis}
    (h : WidthInRange (inEffect Axis.flag s.toStatics sh a)) :
    WidthInRange ((received s sh).input a) := by
  rw [received_input]
  split_ifs
  · exact scrubWidth_range _
  · exact h

theorem received_alone (s : Vars R) {sh : Shared Axis} (hy : Consumes Axis.flag .y sh)
    (hx : ¬ Consumes Axis.flag .x sh) : (received s sh).input .y = sh.inputShared .y := by
  have hflags : ¬ flagsInEffect s.toStatics sh &&& xCoordFlag ≠ 0 := by
    rw [flagsInEffect_of_consumes Axis.flag hy]
    exact hx
  rw [received_input, if_neg hflags, inEffect, if_pos hy]

variable [Field R] (m : Maths R)

theorem angles_inRange_iff (s : Vars R) (i : Turn R) :
    PositionInRange (angles s i) ↔
      WidthInRange ((received s i.shared).input .x) ∧
        WidthInRange ((received s i.shared).input .y) :=
  and_congr (map_position _) (map_position _)

theorem respond_input (s : Vars R) : (respond m s).1.input = s.input := by
  unfold respond solvedBranch debugBranch
  dsimp only
  split_ifs <;> rfl

theorem loop_input (s : Vars R) (i : Turn R) :
    (loop m s i).input = (received s i.shared).input :=
  respond_input m (angles s i)

end Iteration

/-! ## Runs -/

section Runs
variable {R : Type*} (inp : ℕ → Turn R)

/-- A pulse of axis `a` has been consumed by the end of the reads of iteration `n`. -/
def Seen (a : Axis) (n : ℕ) : Prop := ∃ k ≤ n, Consumes Axis.flag a (inp k).shared

theorem seen_succ {a : Axis} {n : ℕ} (h : Seen inp a (n + 1))
    (hnot : ¬ Consumes Axis.flag a (inp (n + 1)).shared) : Seen inp a n := by
  obtain ⟨k, hk, hc⟩ := h
  rcases Nat.le_succ_iff.mp hk with hle | rfl
  · exact ⟨k, hle, hc⟩
  · exact absurd hc hnot

theorem seen_zero {a : Axis} (h : Seen inp a 0) : Consumes Axis.flag a (inp 0).shared := by
  obtain ⟨k, hk, hc⟩ := h
  rwa [Nat.le_zero.mp hk] at hc

variable [Field R] (m : Maths R) (servos : Servo → BitVec 16)

/-- The width that iteration `n` computes with. -/
def widthAt (a : Axis) (n : ℕ) : BitVec 16 :=
  (received (varsAt m servos inp n) (inp n).shared).input a

theorem widthAt_succ {a : Axis} {n : ℕ} (hnot : ¬ Consumes Axis.flag a (inp (n + 1)).shared)
    (h : WidthInRange (widthAt inp m servos a n)) : WidthInRange (widthAt inp m servos a (n + 1)) := by
  have hkept : (varsAt m servos inp (n + 1)).input = (received (varsAt m servos inp n)
      (inp n).shared).input := loop_input m _ _
  apply received_inRange
  rw [inEffect, if_neg hnot, hkept]
  exact h

theorem widthAt_x {n : ℕ} (h : Seen inp .x n) : WidthInRange (widthAt inp m servos .x n) := by
  induction n with
  | zero => exact received_scrubbed _ (seen_zero inp h) .x
  | succ n ih =>
    by_cases hc : Consumes Axis.flag .x (inp (n + 1)).shared
    · exact received_scrubbed _ hc .x
    · exact widthAt_succ inp m servos hc (ih (seen_succ inp h hc))

/-- A `y` pulse that is consumed without an `x` pulse is in range. -/
def AloneInRange (sh : Shared Axis) : Prop :=
  Consumes Axis.flag .y sh → Consumes Axis.flag .x sh ∨ WidthInRange (sh.inputShared .y)

theorem widthAt_y {n : ℕ} (hx : Seen inp .x n) (hy : Seen inp .y n)
    (halone : ∀ k, Seen inp .x k → Seen inp .y k → AloneInRange (inp k).shared) :
    WidthInRange (widthAt inp m servos .y n) := by
  induction n with
  | zero => exact received_scrubbed _ (seen_zero inp hx) .y
  | succ n ih =>
    by_cases hcx : Consumes Axis.flag .x (inp (n + 1)).shared
    · exact received_scrubbed _ hcx .y
    · by_cases hcy : Consumes Axis.flag .y (inp (n + 1)).shared
      · rw [widthAt, received_alone _ hcy hcx]
        exact (halone (n + 1) hx hy hcy).resolve_left hcx
      · exact widthAt_succ inp m servos hcy (ih (seen_succ inp hx hcx) (seen_succ inp hy hcy))

/-- From the moment both channels have been read, the position stays in range exactly when every
`y` pulse consumed alone is. -/
theorem position_inRange_iff :
    (∀ n, Seen inp .x n → Seen inp .y n →
      PositionInRange (angles (varsAt m servos inp n) (inp n))) ↔
    ∀ n, Seen inp .x n → Seen inp .y n → AloneInRange (inp n).shared := by
  constructor
  · intro h n hx hy hcy
    by_cases hcx : Consumes Axis.flag .x (inp n).shared
    · exact Or.inl hcx
    · have hrange := ((angles_inRange_iff _ _).mp (h n hx hy)).2
      rw [received_alone _ hcy hcx] at hrange
      exact Or.inr hrange
  · intro h n hx hy
    exact (angles_inRange_iff _ _).mpr ⟨widthAt_x inp m servos hx, widthAt_y inp m servos hx hy h⟩

end Runs

/-- A first iteration that consumes both centred channels, then a `y` pulse of 2015 alone. -/
noncomputable def overdriven (k : ℕ) : Turn ℝ where
  shared :=
    { bUpdateFlagsShared := if k = 0 then 3 else 2
      inputShared := fun _ => if k = 0 then 1500 else 2015 }
  solver := solver (realMaths fun _ => 0)

theorem position_overdriven :
    ¬ ∀ (toInt : Double ℝ → ℤ) (servos : Servo → BitVec 16) (inp : ℕ → Turn ℝ),
      (∀ n, (inp n).solver = solver (realMaths toInt)) →
      ∀ n, Seen inp .x n → Seen inp .y n →
        PositionInRange (angles (varsAt (realMaths toInt) servos inp n) (inp n)) := by
  intro hall
  have h := (position_inRange_iff overdriven (realMaths fun _ => 0) (fun _ => 1500)).mp
    (hall (fun _ => 0) (fun _ => 1500) overdriven (fun _ => rfl)) 1
      ⟨0, by decide, by decide⟩ ⟨0, by decide, by decide⟩ (by decide)
  revert h
  unfold Consumes WidthInRange overdriven
  decide

end TitanRover.Stick.Titan3DOF
