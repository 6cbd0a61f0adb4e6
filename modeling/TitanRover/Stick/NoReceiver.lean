import TitanRover.Stick.Limits
import TitanRover.Stick.Updated2DOF

/-! # Without a receiver

The widths that the loop keeps start at zero, which the integrator reads as a stick held down. With
no pulse to consume it moves the target from the first iteration on. -/
namespace TitanRover.Stick
open Foundations Foundations.Run
set_option autoImplicit false

section Unpowered
variable {C : Type} (st : Steering C)

def AtStart (g : Guide C) : Prop := g.xEndEPos = 1050 ∧ g.yEndEPos = 1600

theorem Steering.quiet_below (hdown : ∀ a p, p ≤ startPos a → st.move a 0 p ≤ startPos a - 50)
    (a : Axis) (n : ℕ) : (st.move a 0)^[n + 1] (startPos a) ≤ startPos a - 50 := by
  induction n with
  | zero => exact hdown a _ (le_refl _)
  | succ n ih =>
    rw [Function.iterate_succ_apply']
    exact hdown a _ (by omega)

theorem Steering.atStart_iff (hdown : ∀ a p, p ≤ startPos a → st.move a 0 p ≤ startPos a - 50)
    {inp : ℕ → Shared C} {n : ℕ} (h : st.Quiet inp n) : AtStart (st.guideAt inp n) ↔ n = 0 := by
  constructor
  · rintro ⟨hx, -⟩
    cases n with
    | zero => rfl
    | succ n =>
      have hpos := st.quiet_pos h .x
      have hbelow := st.quiet_below hdown .x n
      rw [← hpos] at hbelow
      simp only [Guide.pos, startPos] at hbelow
      omega
  · rintro rfl
    exact ⟨rfl, rfl⟩

end Unpowered

theorem advanceOrClip_down (limit p : ℤ) : advanceOrClip limit 0 p = p - 50 := rfl

theorem Updated2DOF.move_down (a : Axis) (p : ℤ) (hp : p ≤ startPos a) :
    Updated2DOF.move a 0 p ≤ startPos a - 50 := by
  have hlever : lever 0 = -1 := rfl
  cases a <;>
    · simp only [Updated2DOF.move, advance_eq, hlever, startPos] at hp ⊢
      rw [clip_eq (by decide)]
      omega

section Sketches
variable {R : Type*} [Field R] [DecidableEq R]

/-- Before the first pulse of an axis, the target is where `setup` put it only as long as no
iteration has run. -/
theorem target_without_receiver (m : Maths R) (servos : Servo → BitVec 16) {n : ℕ}
    {inpU inpI : ℕ → Shared Axis} {inpS : ℕ → Shared Shovel.Channel}
    (hU : Updated2DOF.steering.Quiet inpU n) (hI : InverseKinematics.steering.Quiet inpI n)
    (hS : Shovel.steering.Quiet inpS n) :
    (AtStart (Updated2DOF.varsAt m servos inpU n).toGuide ↔ n = 0) ∧
      (AtStart (InverseKinematics.varsAt m servos inpI n).toGuide ↔ n = 0) ∧
      (AtStart (Shovel.varsAt m servos inpS n).toGuide ↔ n = 0) := by
  have hdown : ∀ limit : ℤ, ∀ a p, p ≤ startPos a →
      advanceOrClip limit 0 p ≤ startPos a - 50 := by
    intro limit a p hp
    rw [advanceOrClip_down]
    omega
  rw [Updated2DOF.varsAt_guide, InverseKinematics.varsAt_guide, Shovel.varsAt_guide]
  exact ⟨Updated2DOF.steering.atStart_iff Updated2DOF.move_down hU,
    InverseKinematics.steering.atStart_iff (hdown 2300) hI,
    Shovel.steering.atStart_iff (hdown 2000) hS⟩

end Sketches

theorem target_without_receiver_silent :
    (AtStart (Updated2DOF.varsAt (realMaths fun _ => 0) (fun _ => 1500) silent 1).toGuide ↔
        1 = 0) ∧
      (AtStart (InverseKinematics.varsAt (realMaths fun _ => 0) (fun _ => 1500) silent 1).toGuide ↔
        1 = 0) ∧
      (AtStart (Shovel.varsAt (realMaths fun _ => 0) (fun _ => 1500) silent 1).toGuide ↔ 1 = 0) :=
  target_without_receiver (realMaths fun _ => 0) (fun _ => 1500)
    (Updated2DOF.steering.silent_quiet 1) (InverseKinematics.steering.silent_quiet 1)
    (Shovel.steering.silent_quiet 1)

/-- One iteration without a pulse moves the target of each sketch. -/
theorem target_drifts :
    (¬ ∀ (m : Maths ℝ) (servos : Servo → BitVec 16) (inp : ℕ → Shared Axis) (n : ℕ),
      Updated2DOF.steering.Quiet inp n → AtStart (Updated2DOF.varsAt m servos inp n).toGuide) ∧
    (¬ ∀ (m : Maths ℝ) (servos : Servo → BitVec 16) (inp : ℕ → Shared Axis) (n : ℕ),
      InverseKinematics.steering.Quiet inp n →
        AtStart (InverseKinematics.varsAt m servos inp n).toGuide) ∧
    ¬ ∀ (m : Maths ℝ) (servos : Servo → BitVec 16) (inp : ℕ → Shared Shovel.Channel) (n : ℕ),
      Shovel.steering.Quiet inp n → AtStart (Shovel.varsAt m servos inp n).toGuide := by
  refine ⟨fun hall => ?_, fun hall => ?_, fun hall => ?_⟩
  · have h := hall (realMaths fun _ => 0) (fun _ => 1500) silent 1
      (Updated2DOF.steering.silent_quiet 1)
    rw [Updated2DOF.varsAt_guide] at h
    exact absurd h.1 (by decide)
  · have h := hall (realMaths fun _ => 0) (fun _ => 1500) silent 1
      (InverseKinematics.steering.silent_quiet 1)
    rw [InverseKinematics.varsAt_guide] at h
    exact absurd h.1 (by decide)
  · have h := hall (realMaths fun _ => 0) (fun _ => 1500) silent 1
      (Shovel.steering.silent_quiet 1)
    rw [Shovel.varsAt_guide] at h
    exact absurd h.1 (by decide)

end TitanRover.Stick
