import TitanRover.Stick.InverseKinematics
import TitanRover.Stick.Shovel

/-! # The limits of the target

`InverseKinematicsRoboticArm.ino` and `sketch_nov24b.ino` test the limits in the same chain as the
increments, so in an iteration that moves the target they do not act. A stick that is held over
moves the target out of them; they hold in a run exactly when no iteration finds the stick held
towards a limit less than one increment away. -/
namespace TitanRover.Stick
open Foundations Foundations.Run
set_option autoImplicit false

section Limited
variable {C : Type}

def InLimits (limit : ℤ) (g : Guide C) : Prop := ∀ a, -limit ≤ g.pos a ∧ g.pos a ≤ limit

/-- Where the stick of an axis is held over, the target is at least one increment away from the
limit on that side. -/
def KeepsLimits (st : Steering C) (limit : ℤ) (g : Guide C) (sh : Shared C) : Prop :=
  ∀ a, (st.width g sh a > 1750 → g.pos a ≤ limit - 50) ∧
    (st.width g sh a < 1250 → -limit + 50 ≤ g.pos a)

theorem advanceOrClip_inLimits {limit : ℤ} {pos : ℤ} (hpos : -limit ≤ pos ∧ pos ≤ limit)
    (w : BitVec 16) :
    -limit ≤ advanceOrClip limit w pos ∧ advanceOrClip limit w pos ≤ limit ↔
      (w > 1750 → pos ≤ limit - 50) ∧ (w < 1250 → -limit + 50 ≤ pos) := by
  unfold advanceOrClip
  rcases lever_cases w with ⟨hup, hdown, -⟩ | ⟨hup, hdown, -⟩ | ⟨hup, hdown, -⟩
  · rw [if_pos hup]
    refine ⟨fun h => ⟨fun _ => by omega, fun hw => absurd hw hdown⟩, fun h => ?_⟩
    have hle := h.1 hup
    omega
  · rw [if_neg hup, if_pos hdown]
    refine ⟨fun h => ⟨fun hw => absurd hw hup, fun _ => by omega⟩, fun h => ?_⟩
    have hle := h.2 hdown
    omega
  · rw [if_neg hup, if_neg hdown]
    refine iff_of_true ?_ ⟨fun hw => absurd hw hup, fun hw => absurd hw hdown⟩
    split_ifs <;> omega

variable (st : Steering C)

theorem Steering.step_inLimits {limit : ℤ} (hmove : ∀ a, st.move a = advanceOrClip limit)
    {g : Guide C} (h0 : g.bUpdateFlags = 0) (hg : InLimits limit g) (sh : Shared C) :
    InLimits limit (st.step g sh) ↔ KeepsLimits st limit g sh := by
  apply forall_congr'
  intro a
  rw [st.step_pos h0 sh a, hmove]
  exact advanceOrClip_inLimits (hg a) _

theorem Steering.limits_iff {limit : ℤ} (hlimit : 1600 ≤ limit)
    (hmove : ∀ a, st.move a = advanceOrClip limit) (inp : ℕ → Shared C) :
    (∀ n, InLimits limit (st.update (st.guideAt inp n) (inp n))) ↔
      ∀ n, KeepsLimits st limit (st.guideAt inp n) (inp n) := by
  have hinit : InLimits limit (Guide.init : Guide C) := by
    intro a
    cases a <;> simp only [Guide.pos, Guide.init, startPos] <;> omega
  have hends : (∀ n, InLimits limit (st.update (st.guideAt inp n) (inp n))) ↔
      ∀ n, InLimits limit (st.guideAt inp n) := by
    refine ⟨fun h n => ?_, fun h n => h (n + 1)⟩
    cases n with
    | zero => exact hinit
    | succ n => exact h n
  rw [hends]
  exact always_iff st.step Guide.init inp (P := fun _ g => InLimits limit g)
    (Q := fun _ g sh => KeepsLimits st limit g sh) hinit (fun n hn =>
      st.step_inLimits hmove (st.guideAt_bUpdateFlags inp n) hn (inp n))

end Limited

/-! ## The two sketches -/

section Sketches
variable {R : Type*} [Field R] [DecidableEq R]

theorem target_limits_iff (m : Maths R) (servos : Servo → BitVec 16) :
    (∀ inp : ℕ → Shared Axis,
      (∀ n, InLimits 2300 (InverseKinematics.updated
        (InverseKinematics.varsAt m servos inp n) (inp n)).toGuide) ↔
      ∀ n, KeepsLimits InverseKinematics.steering 2300
        (InverseKinematics.varsAt m servos inp n).toGuide (inp n)) ∧
    (∀ inp : ℕ → Shared Shovel.Channel,
      (∀ n, InLimits 2000 (Shovel.updated (Shovel.varsAt m servos inp n) (inp n)).toGuide) ↔
      ∀ n, KeepsLimits Shovel.steering 2000 (Shovel.varsAt m servos inp n).toGuide (inp n)) := by
  constructor
  · intro inp
    simp only [InverseKinematics.updated, InverseKinematics.varsAt_guide]
    exact InverseKinematics.steering.limits_iff (by decide) (fun _ => rfl) inp
  · intro inp
    simp only [Shovel.updated, Shovel.varsAt_guide]
    exact Shovel.steering.limits_iff (by decide) (fun _ => rfl) inp

end Sketches

/-- Both sticks report 2000 in every iteration. -/
def heldUp (C : Type) (_ : ℕ) : Shared C where
  bUpdateFlagsShared := 3
  inputShared := fun _ => 2000

theorem target_leaves_limits :
    (¬ ∀ (m : Maths ℝ) (servos : Servo → BitVec 16) (inp : ℕ → Shared Axis) (n : ℕ),
      InLimits 2300 (InverseKinematics.updated
        (InverseKinematics.varsAt m servos inp n) (inp n)).toGuide) ∧
    ¬ ∀ (m : Maths ℝ) (servos : Servo → BitVec 16) (inp : ℕ → Shared Shovel.Channel) (n : ℕ),
      InLimits 2000 (Shovel.updated (Shovel.varsAt m servos inp n) (inp n)).toGuide := by
  constructor
  · intro hall
    have h := (hall (realMaths fun _ => 0) (fun _ => 1500) (heldUp Axis) 14 .y).2
    simp only [InverseKinematics.updated, InverseKinematics.varsAt_guide] at h
    exact absurd h (by decide +kernel)
  · intro hall
    have h := (hall (realMaths fun _ => 0) (fun _ => 1500) (heldUp Shovel.Channel) 8 .y).2
    simp only [Shovel.updated, Shovel.varsAt_guide] at h
    exact absurd h (by decide +kernel)

end TitanRover.Stick
