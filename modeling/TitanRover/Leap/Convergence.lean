import TitanRover.Foundations.Approach
import TitanRover.Leap.Targets

/-! # Whether the slow increment arrives

`slowIncrementPWM` moves a command by its factor towards the target and takes no shorter last step.
The command arrives and stays exactly when the target is a whole number of steps away. The commands
of a hand held still are such a sequence. -/
namespace TitanRover.Leap
open Foundations Foundations.Approach
set_option autoImplicit false

section Steps
variable {R : Type*} [Field R] [LinearOrder R]

theorem slowIncrementPWM_step (joint : R) :
    slowIncrementPWM joint = Approach.step oneToOneSlowIncrementFactor joint := rfl

variable [IsStrictOrderedRing R]

theorem slowFactor_pos : (0 : R) < oneToOneSlowIncrementFactor := by
  norm_num [oneToOneSlowIncrementFactor]

/-- The command settles at its target exactly when it is a whole number of steps away from it. -/
theorem slowIncrementPWM_settles_iff (joint pastJoint : R) :
    Settles (slowIncrementPWM joint) pastJoint joint ↔
      ∃ k : ℤ, joint - pastJoint = k * oneToOneSlowIncrementFactor := by
  rw [slowIncrementPWM_step, settles_iff slowFactor_pos]
  simp only [zsmul_eq_mul]

end Steps

theorem slowIncrementPWM_settles_iff_near :
    Settles (slowIncrementPWM (1506 : ℝ)) 1500 1506 ↔
      ∃ k : ℤ, (1506 : ℝ) - 1500 = k * oneToOneSlowIncrementFactor :=
  slowIncrementPWM_settles_iff 1506 1500

/-- A target one above the command is passed at once. -/
theorem slowIncrementPWM_unsettled :
    ¬ ∀ joint pastJoint : ℝ, 1000 ≤ joint ∧ joint ≤ 2000 → 1000 ≤ pastJoint ∧ pastJoint ≤ 2000 →
      Settles (slowIncrementPWM joint) pastJoint joint := by
  intro hall
  obtain ⟨k, hk⟩ := (slowIncrementPWM_settles_iff 1501 1500).mp
    (hall 1501 1500 (by norm_num) (by norm_num))
  have hcast : (1 : ℝ) = ((k * 3 : ℤ) : ℝ) := by
    rw [oneToOneSlowIncrementFactor] at hk
    push_cast
    linarith
  have hint : (1 : ℤ) = k * 3 := by exact_mod_cast hcast
  omega

/-! ## A hand held still -/

section Steady
variable {R : Type*} [Field R] [LinearOrder R] [FloorRing R] (env : Env R)

/-- From event `n` on every event is the same frame of a tracked hand, no key is held, and the first
cycle is over. -/
structure Steady (events : ℕ → Event R) (n : ℕ) (r : Reading R) : Prop where
  frames : ∀ k, n ≤ k → events k = .frame r
  tracks : Tracks (varsAt env events n) r
  later : (varsAt env events n).firstLoopCycle = false
  still : ∀ j, (varsAt env events n).increment j = false ∧ (varsAt env events n).decrement j = false

theorem Steady.succ {events : ℕ → Event R} {n : ℕ} {r : Reading R} (h : Steady env events n r) :
    varsAt env events (n + 1) = (draw env (varsAt env events n) r).1 := by
  change step env (varsAt env events n) (events n) = _
  rw [h.frames n (le_refl n)]
  rfl

theorem Steady.next {events : ℕ → Event R} {n : ℕ} {r : Reading R} (h : Steady env events n r) :
    Steady env events (n + 1) r := by
  have hkeys : (varsAt env events (n + 1)).toKeys = (varsAt env events n).toKeys := by
    rw [h.succ]
    exact draw_keys env _ r
  refine ⟨fun k hk => h.frames k (by omega), ?_, ?_, fun j => ?_⟩
  · exact ⟨(congrArg Keys.reset hkeys).trans h.tracks.1,
      (congrArg Keys.wristGripperMode hkeys).trans h.tracks.2.1, h.tracks.2.2⟩
  · rw [h.succ, ← Bool.not_eq_true, draw_firstLoopCycle env (varsAt_consistent env events n)]
    exact fun hfirst => absurd (h.later.symm.trans hfirst.1) (by decide)
  · have hj := h.still j
    cases j with
    | one =>
      exact ⟨(congrArg Keys.joint1Increment hkeys).trans hj.1,
        (congrArg Keys.joint1Decrement hkeys).trans hj.2⟩
    | two =>
      exact ⟨(congrArg Keys.joint2Increment hkeys).trans hj.1,
        (congrArg Keys.joint2Decrement hkeys).trans hj.2⟩

theorem solution_start (s s' : Vars R) (r : Reading R) :
    solution env (start env s r) = solution env (start env s' r) := by
  unfold solution start firstCycle aim
  split_ifs <;> rfl

/-- Every frame of a hand held still aims at the same position. -/
theorem Steady.jointTarget_next {events : ℕ → Event R} {n : ℕ} {r : Reading R}
    (h : Steady env events n r) (j : Joint) :
    jointTarget env (varsAt env events (n + 1)) r j = jointTarget env (varsAt env events n) r j := by
  have hlater := h.next
  have hframe := h.frames n (le_refl n)
  have hframe' := h.frames (n + 1) (Nat.le_succ n)
  have hsame : solved env (varsAt env events (n + 1)) r = solved env (varsAt env events n) r := by
    rw [solved, solved, if_pos hlater.tracks, if_pos h.tracks, solution_start]
  have hlast : lastSolved env events (n + 1 + 1) = lastSolved env events (n + 1) := by
    rw [lastSolved_frame env hframe', lastSolved_frame env hframe, hsame]
    cases solved env (varsAt env events n) r <;> rfl
  rw [jointTarget_pose env hframe h.tracks, jointTarget_pose env hframe' hlater.tracks, hlast]

theorem Steady.PWM_next {events : ℕ → Event R} {n : ℕ} {r : Reading R}
    (h : Steady env events n r) {j : Joint} {p : R} (hp : (varsAt env events n).PWM j = some p) :
    (varsAt env events (n + 1)).PWM j =
      some (slowIncrementPWM (jointTarget env (varsAt env events n) r j) p) := by
  have hfrom : jointFrom env (varsAt env events n) r j = p := by
    rw [jointFrom, if_neg (by simp [h.tracks.1]), if_neg (by simp [h.later]), hp]
    rfl
  have hmove : jointMove env (varsAt env events n) r j =
      approachMove (jointTarget env (varsAt env events n) r j) p := by
    rw [jointMove, jointStep, if_pos ⟨h.tracks, h.later⟩, (h.still j).1, (h.still j).2, hp]
    exact add_zero _
  rw [h.succ, draw_PWM, frame_joint env (varsAt_consistent env events n), hfrom, hmove,
    slowIncrementPWM_eq]

/-- The commands of a hand held still are the slow increment repeated. -/
theorem steady_hand {events : ℕ → Event R} {n : ℕ} {r : Reading R} (h : Steady env events n r)
    {j : Joint} {p : R} (hp : (varsAt env events n).PWM j = some p) (m : ℕ) :
    (varsAt env events (n + m)).PWM j =
      some ((slowIncrementPWM (jointTarget env (varsAt env events n) r j))^[m] p) := by
  induction m generalizing n p with
  | zero => exact hp
  | succ m ih =>
    have hrest := ih h.next (h.PWM_next env hp)
    rw [h.jointTarget_next] at hrest
    rw [Function.iterate_succ_apply, ← hrest, Nat.add_right_comm n 1 m]
    rfl

/-- A steady hand gives a steady command exactly when the position it aims at is a whole number of
steps away. -/
theorem steady_command_iff [IsStrictOrderedRing R] {events : ℕ → Event R} {n : ℕ} {r : Reading R}
    (h : Steady env events n r) {j : Joint} {p : R} (hp : (varsAt env events n).PWM j = some p) :
    (∃ m, ∀ m', m ≤ m' → (varsAt env events (n + m')).PWM j =
        some (jointTarget env (varsAt env events n) r j)) ↔
      ∃ k : ℤ, jointTarget env (varsAt env events n) r j - p = k * oneToOneSlowIncrementFactor := by
  simp only [steady_hand env h hp, Option.some_inj, ← zsmul_eq_mul]
  constructor
  · rintro ⟨m, hm⟩
    exact steps_of_reached (hm m (le_refl m))
  · exact fun hs => ((settles_iff slowFactor_pos).mpr hs).reaches

end Steady

end TitanRover.Leap
